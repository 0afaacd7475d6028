import OmniMesh.Cli.Config
import OmniMesh.Core.PeerId
import OmniMesh.Crypto.Handshake
import OmniMesh.Identity.VirtualIp
import OmniMesh.Lib.Run

/-!
# The commands of the node (`omnimesh-node/src/main.rs`)

The commands of one user run one after the other on one file system, in one working directory and with one
`--config` argument. A command can fail or be stopped before each of its steps and in the middle of a write.
Of `run` only the start is here, up to the identity that the node takes on. The files of a machine are under
their places; `dirs` tells the place of a directory from its text.
-/

namespace OmniMesh.Cli
open OmniMesh.Core OmniMesh.Crypto OmniMesh.Identity

/-- What a command draws when it makes and stores a keypair. -/
structure Draw where
  keypair : Keypair
  salt : Salt
  nonce : Nonce
  createdAt : String

inductive Command
  | init (draw : Draw)
  | identityShow
  | identityGenerate (draw : Draw)
  | run

inductive Output
  | alreadyExists (keyPath : Fs.Path) (peerId : PeerId)
  | initialized (peerId : PeerId) (keyPath : Fs.Path) (dataDir : String)
  | configWritten
  | notFound
  | shown (peerId : PeerId) (publicKey : Key) (keyPath : Fs.Path)
  | generated (peerId : PeerId)
  | running (name : String) (peerId : PeerId) (listenAddr : SocketAddr)
  | failed (error : OmniMeshError)

namespace Output

/-- The lines of the output; a failure goes to the standard error. -/
def lines : Output → List String
  | .alreadyExists keyPath peerId =>
      [s!"⚠  Identity already exists at {Config.displayPath keyPath}", s!"   PeerId: {peerId.toHex}"]
  | .initialized peerId keyPath dataDir =>
      ["✓  Node initialized successfully!", s!"   PeerId:     {peerId.toHex}",
        s!"   Virtual IP: {(VirtualIp.fromPeerId peerId).toText}",
        s!"   Key file:   {Config.displayPath keyPath}", s!"   Data dir:   {dataDir}"]
  | .configWritten => ["   Config:     config.toml"]
  | .notFound => ["No identity found. Run `omnimesh init` first."]
  | .shown peerId publicKey keyPath =>
      ["Node Identity:", s!"  PeerId:      {peerId.toHex}", s!"  Short ID:    {peerId.short}",
        s!"  Virtual IP:  {(VirtualIp.fromPeerId peerId).toText}",
        s!"  Public Key:  {(PeerId.fromBytes publicKey).toHex}",
        s!"  Key file:    {Config.displayPath keyPath}"]
  | .generated peerId =>
      ["✓  New identity generated!", s!"   PeerId:     {peerId.toHex}",
        s!"   Virtual IP: {(VirtualIp.fromPeerId peerId).toText}"]
  | .running name peerId listenAddr =>
      ["OmniMesh node running", s!"  Name:        {name}", s!"  PeerId:      {peerId.short}",
        s!"  Virtual IP:  {(VirtualIp.fromPeerId peerId).toText}", s!"  Listening:   {listenAddr.toText}",
        "", "Press Ctrl+C to stop."]
  | .failed error => [s!"Error: {error.toText}"]

/-- The identity that the output names as that of the node. -/
def identity : Output → Option PeerId
  | .initialized peerId _ _ | .shown peerId _ _ | .generated peerId | .running _ peerId _ => some peerId
  | _ => none

/-- The identity that `init` names next to one that exists. -/
def besideExisting : Output → Option PeerId
  | .alreadyExists _ peerId => some peerId
  | _ => none

end Output

/-- Where a command is. `first` tells `init` from `identity generate`. -/
inductive Stage
  | creatingDir (draw : Draw)
  | checking (draw : Draw)
  | storing (first : Bool) (call : StoreCall)
  | stored (first : Bool) (keypair : Keypair)
  | writing (text : Bytes) (written : Option ℕ)

structure Process where
  config : Config
  stage : Stage

/-- `output` and `stored` are histories: what was printed, and the keypairs whose store took effect. -/
structure Machine where
  files : Fs.Files
  process : Option Process
  output : List Output
  stored : List Keypair

/-- `disk` is a step of the store, and `write` brings `config.toml` to a number of bytes. An error of the
next step, or the end of the process before it, is `stop`. -/
inductive MachineAct
  | start (env : Env) (command : Command)
  | createDirAll
  | check
  | disk (act : DiskAct)
  | announce
  | truncate
  | write (upTo : ℕ)
  | finish
  | stop

/-- The file that `init` writes, whatever file the configuration was read from. -/
def configToml : Fs.Path := ⟨none, some "config.toml".toList⟩

/-- The key file, the temporary file next to it and the files of the configuration are different files. -/
structure Apart (dirs : Fs.Directories) (configArg keyFile : Fs.Path) : Prop where
  tmp : tmpPath keyFile ≠ keyFile
  arg : configArg.locate dirs ≠ keyFile
  argTmp : configArg.locate dirs ≠ tmpPath keyFile
  toml : configToml.locate dirs ≠ keyFile

namespace Machine

section
variable (F : Formats) (P : Primitives) (S : KeyScheme) (dirs : Fs.Directories) (configArg : Fs.Path)

def start (files : Fs.Files) : Machine := ⟨files, none, [], []⟩

/-- `FileKeyStore::store` up to its first system call. -/
def beginStore (self : Machine) (config : Config) (first : Bool) (draw : Draw) : Option Machine :=
  match Disk.step P (config.identity.keyPath.locate dirs) ⟨self.files, none, none⟩
    (.store draw.keypair "" draw.salt draw.nonce draw.createdAt) with
  | none => none
  | some disk => some { self with process := disk.call.map fun call => ⟨config, .storing first call⟩ }

/-- `cmd_identity_show` and the beginning of `cmd_run`. -/
def withIdentity (self : Machine) (config : Config) (output : Keypair → Output) : Output :=
  if (self.files.seen dirs config.identity.keyPath).isSome then
    match load P config.identity.keyPath (self.files.seen dirs) "" with
    | .error e => .failed e
    | .ok keypair => output keypair
  else .notFound

def print (self : Machine) (output : Output) : Machine := { self with output := self.output ++ [output] }

def step (self : Machine) : MachineAct → Option Machine
  | .start env command =>
      match self.process with
      | some _ => none
      | none =>
          let config := Config.loadOrDefault F env (self.files.seen dirs) configArg
          match command with
          | .init draw => some { self with process := some ⟨config, .creatingDir draw⟩ }
          | .identityGenerate draw => self.beginStore P dirs config false draw
          | .identityShow =>
              some (self.print (self.withIdentity P dirs config fun keypair =>
                .shown (S.toPeerId keypair.seed) (S.ed25519 keypair.seed) config.identity.keyPath))
          | .run =>
              some (self.print (self.withIdentity P dirs config fun keypair =>
                .running config.node.name (S.toPeerId keypair.seed) config.transport.listenAddr))
  | .createDirAll =>
      match self.process with
      | some ⟨config, .creatingDir draw⟩ => some { self with process := some ⟨config, .checking draw⟩ }
      | _ => none
  | .check =>
      match self.process with
      | some ⟨config, .checking draw⟩ =>
          if (self.files.seen dirs config.identity.keyPath).isSome then
            -- the line names the keypair that was just made, not the one in the file
            some { self.print (.alreadyExists config.identity.keyPath (S.toPeerId draw.keypair.seed)) with
              process := none }
          else self.beginStore P dirs config true draw
      | _ => none
  | .disk act =>
      match self.process with
      | some ⟨config, .storing first call⟩ =>
          match Disk.step P (config.identity.keyPath.locate dirs) ⟨self.files, some call, none⟩ act with
          | none => none
          | some ⟨files, some call, _⟩ => some { self with files, process := some ⟨config, .storing first call⟩ }
          | some ⟨files, none, some (keypair, _)⟩ =>
              some { self with
                files
                process := some ⟨config, .stored first keypair⟩
                stored := self.stored ++ [keypair] }
          | some ⟨files, none, none⟩ => some { self with files, process := none }
      | _ => none
  | .announce =>
      match self.process with
      | some ⟨config, .stored true keypair⟩ =>
          let output := .initialized (S.toPeerId keypair.seed) config.identity.keyPath config.node.dataDir
          match F.toToml config with
          | .error _ => some { self.print output with process := none }
          | .ok text =>
              some { self.print output with process := some ⟨config, .writing text.toUTF8.data.toList none⟩ }
      | some ⟨_, .stored false keypair⟩ =>
          some { self.print (.generated (S.toPeerId keypair.seed)) with process := none }
      | _ => none
  | .truncate =>
      match self.process with
      | some ⟨config, .writing text none⟩ =>
          some { self with
            files := self.files.write (configToml.locate dirs) []
            process := some ⟨config, .writing text (some 0)⟩ }
      | _ => none
  | .write upTo =>
      match self.process with
      | some ⟨config, .writing text (some written)⟩ =>
          if written ≤ upTo then
            some { self with
              files := self.files.write (configToml.locate dirs) (text.take upTo)
              process := some ⟨config, .writing text (some upTo)⟩ }
          else none
      | _ => none
  | .finish =>
      match self.process with
      | some ⟨_, .writing text (some written)⟩ =>
          if text.length ≤ written then some { self.print .configWritten with process := none } else none
      | _ => none
  | .stop =>
      match self.process with
      | some _ => some { self with process := none }
      | none => none

end

/-- The identities that were named as that of the node. -/
def named (self : Machine) : List PeerId := self.output.filterMap Output.identity

end Machine

namespace MachineAct

def env : MachineAct → Option Env
  | .start env _ => some env
  | _ => none

def isGenerate : MachineAct → Bool
  | .start _ (.identityGenerate _) => true
  | _ => false

/-- The keypair that the command makes. -/
def drawn : MachineAct → Option Keypair
  | .start _ (.init draw) => some draw.keypair
  | .start _ (.identityGenerate draw) => some draw.keypair
  | _ => none

end MachineAct

/-- Whatever commands other than `identity generate` the user runs, and wherever these are stopped, the
outputs name one identity at most. -/
def Machine.OneIdentity (F : Formats) (P : Primitives) (S : KeyScheme) (dirs : Fs.Directories) (configArg : Fs.Path)
    (files : Fs.Files) (home : Option String) : Prop :=
  ∀ acts m, Lts.run (step F P S dirs configArg) (start files) acts = some m →
    (∀ act ∈ acts, act.isGenerate = false ∧ ∀ env, act.env = some env → env.home = home) →
    ∀ p ∈ m.named, ∀ q ∈ m.named, p = q

/-- What holds of TOML and JSON: no configuration, whole or cut off, is a key record. -/
def Formats.Foreign (F : Formats) (P : Primitives) : Prop :=
  ∀ config text part, F.toToml config = .ok text → part.toUTF8.data.toList <+: text.toUTF8.data.toList →
    ∃ e, P.fromJson part = .error e

end OmniMesh.Cli
