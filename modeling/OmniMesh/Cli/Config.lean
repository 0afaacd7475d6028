import OmniMesh.Identity.KeyStore

/-!
# The configuration (`omnimesh-core/src/config.rs`)

What `serde` reads is a document in which every field may be missing. The platform is neither Windows nor
macOS.
-/

namespace OmniMesh.Cli
open OmniMesh.Core

structure NodeConfig where
  name : String
  dataDir : String
  relayEnabled : Bool
  maxConnections : UInt64
  deriving DecidableEq

structure TransportConfig where
  listenAddr : SocketAddr
  bootstrapNodes : List String
  connectTimeoutMs : UInt64
  keepaliveSecs : UInt64
  deriving DecidableEq

structure IdentityConfig where
  keyPath : Fs.Path
  autoRotate : Bool
  rotationIntervalHours : UInt64
  deriving DecidableEq

structure TelemetryConfig where
  logLevel : String
  jsonLogs : Bool
  metricsEnabled : Bool
  metricsEndpoint : Option String
  deriving DecidableEq

structure StorageConfig where
  dbPath : Fs.Path
  maxSizeMb : UInt64
  deriving DecidableEq

structure Config where
  node : NodeConfig
  transport : TransportConfig
  identity : IdentityConfig
  telemetry : TelemetryConfig
  storage : StorageConfig
  deriving DecidableEq

/-! ## Documents -/

structure NodeTable where
  name : Option String
  dataDir : Option String
  relayEnabled : Option Bool
  maxConnections : Option UInt64

structure TransportTable where
  listenAddr : Option SocketAddr
  bootstrapNodes : Option (List String)
  connectTimeoutMs : Option UInt64
  keepaliveSecs : Option UInt64

structure IdentityTable where
  keyPath : Option Fs.Path
  autoRotate : Option Bool
  rotationIntervalHours : Option UInt64

structure TelemetryTable where
  logLevel : Option String
  jsonLogs : Option Bool
  metricsEnabled : Option Bool
  metricsEndpoint : Option String

structure StorageTable where
  dbPath : Option Fs.Path
  maxSizeMb : Option UInt64

structure Document where
  node : Option NodeTable
  transport : Option TransportTable
  identity : Option IdentityTable
  telemetry : Option TelemetryTable
  storage : Option StorageTable

def Document.empty : Document := ⟨none, none, none, none, none⟩

/-- The document of a configuration with all its fields. -/
def Config.document (self : Config) : Document where
  node := some ⟨self.node.name, self.node.dataDir, self.node.relayEnabled, self.node.maxConnections⟩
  transport := some ⟨self.transport.listenAddr, self.transport.bootstrapNodes,
    self.transport.connectTimeoutMs, self.transport.keepaliveSecs⟩
  identity := some ⟨self.identity.keyPath, self.identity.autoRotate, self.identity.rotationIntervalHours⟩
  telemetry := some ⟨self.telemetry.logLevel, self.telemetry.jsonLogs, self.telemetry.metricsEnabled,
    self.telemetry.metricsEndpoint⟩
  storage := some ⟨self.storage.dbPath, self.storage.maxSizeMb⟩

/-! ## Defaults -/

/-- What a process finds: the environment variables that the code reads, and the text of a random UUID. -/
structure Env where
  home : Option String
  nodeName : Option String
  listenAddr : Option String
  logLevel : Option String
  dataDir : Option String
  uuid : String

/-- `PathBuf::join` with a relative path. -/
def joinPath (base name : String) : String :=
  if base.toList = [] ∨ base.toList.getLast? = some '/' then base ++ name else base ++ "/" ++ name

def dirsDefault (home : Option String) (app : String) : String :=
  joinPath (joinPath (joinPath (home.getD ".") ".local") "share") app

def defaultNodeName (env : Env) : String := "omnimesh-" ++ String.ofList (env.uuid.toList.take 8)

def defaultKeyPath (home : Option String) : Fs.Path :=
  ⟨some (dirsDefault home "omnimesh"), some "identity.key".toList⟩

def defaultDbPath (home : Option String) : Fs.Path :=
  ⟨some (dirsDefault home "omnimesh"), some "state.redb".toList⟩

namespace Document

def nodeConfig (env : Env) (table : Option NodeTable) : NodeConfig where
  name := (table.bind (·.name)).getD (defaultNodeName env)
  dataDir := (table.bind (·.dataDir)).getD (dirsDefault env.home "omnimesh")
  relayEnabled := (table.bind (·.relayEnabled)).getD false
  maxConnections := (table.bind (·.maxConnections)).getD 256

def transportConfig (table : Option TransportTable) : TransportConfig where
  listenAddr := (table.bind (·.listenAddr)).getD (.v4 (Vector.replicate 4 0) 4433)
  bootstrapNodes := (table.bind (·.bootstrapNodes)).getD []
  connectTimeoutMs := (table.bind (·.connectTimeoutMs)).getD 10000
  keepaliveSecs := (table.bind (·.keepaliveSecs)).getD 15

def identityConfig (env : Env) (table : Option IdentityTable) : IdentityConfig where
  keyPath := (table.bind (·.keyPath)).getD (defaultKeyPath env.home)
  autoRotate := (table.bind (·.autoRotate)).getD false
  rotationIntervalHours := (table.bind (·.rotationIntervalHours)).getD 720

def telemetryConfig (table : Option TelemetryTable) : TelemetryConfig where
  logLevel := (table.bind (·.logLevel)).getD "info"
  jsonLogs := (table.bind (·.jsonLogs)).getD false
  metricsEnabled := (table.bind (·.metricsEnabled)).getD false
  metricsEndpoint := table.bind (·.metricsEndpoint)

def storageConfig (env : Env) (table : Option StorageTable) : StorageConfig where
  dbPath := (table.bind (·.dbPath)).getD (defaultDbPath env.home)
  maxSizeMb := (table.bind (·.maxSizeMb)).getD 512

/-- What `serde` makes of a document. A table that is missing and a field that is missing have the same
defaults. -/
def config (self : Document) (env : Env) : Config where
  node := nodeConfig env self.node
  transport := transportConfig self.transport
  identity := identityConfig env self.identity
  telemetry := telemetryConfig self.telemetry
  storage := storageConfig env self.storage

def keyPath (self : Document) : Option Fs.Path := self.identity.bind (·.keyPath)

end Document

/-! ## Loading -/

/-- What the configuration takes from other crates. `plain` are the key paths whose text in a document that
is cut off is never that of another path. -/
structure Formats where
  fromToml : String → Except String Document
  toToml : Config → Except String String
  parseAddr : String → Option SocketAddr
  plain : Fs.Path → Prop
  fromToml_toToml : ∀ config text, toToml config = .ok text → fromToml text = .ok config.document
  fromToml_empty : fromToml "" = .ok .empty
  fromToml_part : ∀ config text part document, toToml config = .ok text → plain config.identity.keyPath →
    part.toUTF8.data.toList <+: text.toUTF8.data.toList → fromToml part = .ok document →
    document.keyPath = none ∨ document.keyPath = some config.identity.keyPath

namespace Config

def default (env : Env) : Config := Document.empty.config env

def displayPath (path : Fs.Path) : String :=
  match path.parent, path.fileName with
  | some parent, some name => joinPath parent (String.ofList name)
  | some parent, none => parent
  | none, some name => String.ofList name
  | none, none => ""

def fromFile (F : Formats) (env : Env) (files : Fs.Files) (path : Fs.Path) : Result Config :=
  match Identity.readToString files path with
  | .error e => .error (.config s!"failed to read config file {displayPath path}: {e}")
  | .ok content =>
      match F.fromToml content with
      | .error e => .error (.config s!"invalid config TOML: {e}")
      | .ok document => .ok (document.config env)

def applyEnvOverrides (F : Formats) (env : Env) (self : Config) : Config where
  node := { self.node with
    name := env.nodeName.getD self.node.name
    dataDir := env.dataDir.getD self.node.dataDir }
  transport := { self.transport with
    listenAddr := (env.listenAddr.bind F.parseAddr).getD self.transport.listenAddr }
  identity := self.identity
  telemetry := { self.telemetry with logLevel := env.logLevel.getD self.telemetry.logLevel }
  storage := self.storage

def load (F : Formats) (env : Env) (files : Fs.Files) (path : Option Fs.Path) : Result Config :=
  match path with
  | some p =>
      if (files p).isSome then (fromFile F env files p).map (applyEnvOverrides F env)
      else .ok (applyEnvOverrides F env (default env))
  | none => .ok (applyEnvOverrides F env (default env))

/-- What `main` works with: after an error the defaults, without the overrides. -/
def loadOrDefault (F : Formats) (env : Env) (files : Fs.Files) (path : Fs.Path) : Config :=
  match load F env files (some path) with
  | .ok config => config
  | .error _ => default env

end Config

end OmniMesh.Cli
