import Mathlib.Algebra.Ring.Nat
import OmniMesh.Crypto.Aead
import OmniMesh.Lib.Files
import OmniMesh.Lib.Run

/-!
# The key store on disk (`omnimesh-identity/src/keystore.rs`)

`store` goes through its file-system steps one by one and may fail, or the process may stop, before each
of them and in the middle of the write. What `store` draws from the random generator and the clock are
arguments.
-/

namespace OmniMesh.Identity
open OmniMesh.Core OmniMesh.Crypto

abbrev Salt := Vector UInt8 32

/-- An Ed25519 keypair is determined by its seed. -/
structure Keypair where
  seed : Key
  deriving DecidableEq

structure EncryptedKey where
  version : UInt32
  nonce : Nonce
  ciphertext : Bytes
  salt : Salt
  createdAt : String
  deriving DecidableEq

/-- What the key store takes from other crates: the cipher, HKDF and JSON. `words` are passphrases among
which a wrong one is rejected. -/
structure Primitives where
  cipher : ChaCha20Poly1305
  deriveKey : String → Salt → Key
  toJson : EncryptedKey → String
  fromJson : String → Except String EncryptedKey
  words : String → Prop
  seed_fits : 32 ≤ cipher.maxLen
  fromJson_toJson : ∀ r, r.ciphertext.length = 48 → r.createdAt.utf8ByteSize < 2 ^ 64 →
    fromJson (toJson r) = .ok r
  fromJson_empty : ∃ e, fromJson "" = .error e
  rejects : ∀ right wrong salt nonce seed c, words right → words wrong → wrong ≠ right →
    cipher.encrypt (deriveKey right salt) nonce seed = .ok c →
    ∃ e, cipher.decrypt (deriveKey wrong salt) nonce c = .error e

/-- The record that `store` writes. -/
def encryptedKey (P : Primitives) (keypair : Keypair) (passphrase : String) (salt : Salt) (nonce : Nonce)
    (createdAt : String) : Result EncryptedKey :=
  match P.cipher.encrypt (P.deriveKey passphrase salt) nonce keypair.seed.toList with
  | .error e => .error (.keyStore s!"encryption failed: {e}")
  | .ok ciphertext => .ok ⟨1, nonce, ciphertext, salt, createdAt⟩

def readToString (files : Fs.Files) (path : Fs.Path) : Except String String :=
  match files path with
  | none => .error "No such file or directory (os error 2)"
  | some contents =>
      match String.fromUTF8? ⟨contents.toArray⟩ with
      | none => .error "stream did not contain valid UTF-8"
      | some text => .ok text

def jsonBytes (P : Primitives) (record : EncryptedKey) : Bytes := (P.toJson record).toUTF8.data.toList

/-- The second half of `load`, on the parsed record. -/
def openRecord (P : Primitives) (record : EncryptedKey) (passphrase : String) : Result Keypair :=
  if record.version ≠ 1 then
    .error (.keyStore s!"unsupported key format version: {record.version.toNat}")
  else
    match P.cipher.decrypt (P.deriveKey passphrase record.salt) record.nonce record.ciphertext with
    | .error _ => .error (.keyStore "decryption failed — wrong passphrase or corrupted file")
    | .ok seedBytes =>
        if h : seedBytes.length ≠ 32 then
          .error (.keyStore s!"invalid seed length: expected 32, got {seedBytes.length}")
        else .ok ⟨⟨seedBytes.toArray, by simpa using h⟩⟩

def load (P : Primitives) (path : Fs.Path) (files : Fs.Files) (passphrase : String) : Result Keypair :=
  match readToString files path with
  | .error e => .error (.keyStore s!"failed to read key file: {e}")
  | .ok json =>
      match P.fromJson json with
      | .error e => .error (.keyStore s!"invalid key file format: {e}")
      | .ok record => openRecord P record passphrase

/-- Where a call of `store` is. `writing` says how much of the data is in the file. -/
inductive StoreStage
  | creatingDir
  | creating
  | writing (written : ℕ)

structure StoreCall where
  keypair : Keypair
  passphrase : String
  json : Bytes
  stage : StoreStage

/-- `last` is the keypair and the passphrase of the last store whose rename took effect. -/
structure Disk where
  files : Fs.Files
  call : Option StoreCall
  last : Option (Keypair × String)

/-- `stop` is an error of the next step, or a crash before it. -/
inductive DiskAct
  | store (keypair : Keypair) (passphrase : String) (salt : Salt) (nonce : Nonce) (createdAt : String)
  | createDirAll
  | create
  | write (upTo : ℕ)
  | rename
  | stop

def tmpPath (path : Fs.Path) : Fs.Path := path.withExtension ['t', 'm', 'p']

namespace Disk

def init (files : Fs.Files) : Disk := ⟨files, none, none⟩

/-- No `String` has 2^64 bytes or more: `store` only takes such times. -/
def step (P : Primitives) (path : Fs.Path) (self : Disk) : DiskAct → Option Disk
  | .store keypair passphrase salt nonce createdAt =>
      match self.call with
      | some _ => none
      | none =>
          if createdAt.utf8ByteSize < 2 ^ 64 then
            match encryptedKey P keypair passphrase salt nonce createdAt with
            | .error _ => some self
            | .ok record =>
                let stage := if path.parent.isSome then .creatingDir else .creating
                some { self with call := some ⟨keypair, passphrase, jsonBytes P record, stage⟩ }
          else none
  | .createDirAll =>
      match self.call with
      | some ⟨keypair, passphrase, json, .creatingDir⟩ =>
          some { self with call := some ⟨keypair, passphrase, json, .creating⟩ }
      | _ => none
  | .create =>
      match self.call with
      | some ⟨keypair, passphrase, json, .creating⟩ =>
          some { self with
            files := self.files.write (tmpPath path) []
            call := some ⟨keypair, passphrase, json, .writing 0⟩ }
      | _ => none
  | .write upTo =>
      match self.call with
      | some ⟨keypair, passphrase, json, .writing written⟩ =>
          if written ≤ upTo then
            some { self with
              files := self.files.write (tmpPath path) (json.take upTo)
              call := some ⟨keypair, passphrase, json, .writing upTo⟩ }
          else none
      | _ => none
  | .rename =>
      match self.call with
      | some ⟨keypair, passphrase, json, .writing written⟩ =>
          if json.length ≤ written then
            some ⟨self.files.rename (tmpPath path) path, none, some (keypair, passphrase)⟩
          else none
      | _ => none
  | .stop =>
      match self.call with
      | some _ => some { self with call := none }
      | none => none

/-- `load` finds the keypair of the last store that took effect, under its passphrase only. -/
def Recovers (P : Primitives) (path : Fs.Path) (self : Disk) : Prop :=
  match self.last with
  | none => ∀ passphrase, ∃ e, load P path self.files passphrase = .error e
  | some (keypair, right) => load P path self.files right = .ok keypair ∧
      ∀ wrong, P.words right → P.words wrong → wrong ≠ right →
        ∃ e, load P path self.files wrong = .error e

end Disk

end OmniMesh.Identity
