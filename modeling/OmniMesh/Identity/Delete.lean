import OmniMesh.Identity.KeyStore

/-!
# Deleting a key (`omnimesh-identity/src/keystore.rs`)

Stores and calls of `delete` one after the other on one key file. `delete` overwrites the file with zeros,
whether or not that succeeds, and removes it. It may fail or be stopped before each of these and in the
middle of the write.
-/

namespace OmniMesh.Identity
open OmniMesh.Core

def zeros (n : ℕ) : Bytes := List.replicate n 0

/-- `deleting` says that a `delete` has found the file. `left` is a history: the keypair and the passphrase
of a store that was stopped when its temporary file was complete, as long as nobody has touched the file. -/
structure Vault where
  disk : Disk
  deleting : Bool
  left : Option (Keypair × String)

/-- `zero` brings the file to some number of zeros, and `stop` ends a `delete` early. -/
inductive VaultAct
  | store (act : DiskAct)
  | delete
  | zero (upTo : ℕ)
  | remove
  | stop

namespace Vault

def init (files : Fs.Files) : Vault := ⟨.init files, false, none⟩

def fileExists (path : Fs.Path) (self : Vault) : Bool := (self.disk.files path).isSome

/-- What a step of a store makes of the temporary file that another one has left. -/
def leftAfter (self : Vault) : DiskAct → Option (Keypair × String)
  | .create | .rename => none
  | .stop =>
      match self.disk.call with
      | some ⟨keypair, passphrase, json, .writing written⟩ =>
          if json.length ≤ written then some (keypair, passphrase) else none
      | _ => self.left
  | _ => self.left

def step (P : Primitives) (path : Fs.Path) (self : Vault) : VaultAct → Option Vault
  | .store act =>
      if self.deleting then none
      else (Disk.step P path self.disk act).map fun disk => { self with disk, left := self.leftAfter act }
  | .delete =>
      if self.deleting || self.disk.call.isSome then none
      else if self.fileExists path then some { self with deleting := true }
      else some self
  | .zero upTo =>
      if self.deleting && upTo ≤ 512 then
        some { self with disk := { self.disk with
          files := self.disk.files.write path (zeros upTo)
          last := none } }
      else none
  | .remove =>
      if self.deleting then
        some { self with
          disk := { self.disk with files := self.disk.files.remove path, last := none }
          deleting := false }
      else none
  | .stop => if self.deleting then some { self with deleting := false } else none

end Vault

/-- What holds of JSON: zeros are no record of this version, and neither is a record that is cut off. -/
structure Primitives.Strict (P : Primitives) : Prop where
  zeros : ∀ n text record, text.toUTF8.data.toList = zeros n → P.fromJson text = .ok record →
    record.version ≠ 1
  part : ∀ record part n, record.ciphertext.length = 48 → record.createdAt.utf8ByteSize < 2 ^ 64 →
    part.toUTF8.data.toList = (jsonBytes P record).take n → n < (jsonBytes P record).length →
    ∃ e, P.fromJson part = .error e

end OmniMesh.Identity
