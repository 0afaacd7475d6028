import OmniMesh.Identity.Lemmas.Delete
import OmniMesh.Identity.Theorems

/-!
# What is left of a deleted key
-/

namespace OmniMesh.Identity
open OmniMesh.Core

/-- Stores and deletions are interrupted wherever. At rest `load` finds under the path the last keypair that
was stored and that no deletion has reached, and nothing after a deletion. Under the path of the temporary
file it finds the keypair of a store that was stopped when that file was complete: `delete` leaves it. -/
theorem delete_leaves_temporary {P : Primitives} (hP : P.Strict) {path : Fs.Path}
    (hpath : path.fileName ≠ none ∧ path.extension ≠ some ['t', 'm', 'p']) {files : Fs.Files}
    (hfile : files path = none) (htmp : files (tmpPath path) = none) {acts : List VaultAct} {v : Vault}
    (hr : Lts.run (Vault.step P path) (.init files) acts = some v) (hidle : v.disk.call = none) :
    v.disk.Recovers P path ∧ Disk.Recovers P (tmpPath path) { v.disk with last := v.left } ∧
      ∀ w, v.step P path .remove = some w → w.fileExists path = false ∧ w.disk.last = none ∧
        w.disk.Recovers P path ∧ Disk.Recovers P (tmpPath path) { w.disk with last := v.left } := by
  have hapart : tmpPath path ≠ path := by
    rw [Ne, tmpPath, Fs.Path.withExtension_eq_self_iff, not_or]
    exact hpath
  have hv := Vault.run_guarded hapart hfile htmp hr
  refine ⟨hv.recovers hP, hv.left_recovers hP hidle, fun w hs => ?_⟩
  have hw := hv.step hapart hs
  simp only [Vault.step] at hs
  split at hs
  · cases hs
    refine ⟨?_, rfl, hw.recovers hP, hw.left_recovers hP hidle⟩
    simp [Vault.fileExists, Fs.Files.remove_self]
  · cases hs

/-- The first key is stored, the store of the second one stops before its rename, and the key is deleted. -/
def deletedRun : List VaultAct :=
  (Disk.beginStore keyPath firstKey "right").map .store ++ [.store (.write 1000), .store .rename] ++
    (Disk.beginStore keyPath secondKey "wrong").map .store ++ [.store (.write 1000), .store .stop] ++
    [.delete, .zero 512]

/-- The second key is still there. -/
theorem delete_leaves_temporary_second :
    ∃ v w, Lts.run (Vault.step plainPrimitives keyPath) (.init fun _ => none) deletedRun = some v ∧
      v.step plainPrimitives keyPath .remove = some w ∧ w.fileExists keyPath = false ∧
      load plainPrimitives (tmpPath keyPath) w.disk.files "wrong" = .ok secondKey := by
  have hpath : keyPath.fileName ≠ none ∧ keyPath.extension ≠ some ['t', 'm', 'p'] := by decide
  obtain ⟨v, w, hr, hs, hidle, hleft⟩ : ∃ v w,
      Lts.run (Vault.step plainPrimitives keyPath) (.init fun _ => none) deletedRun = some v ∧
        v.step plainPrimitives keyPath .remove = some w ∧ v.disk.call = none ∧
        v.left = some (secondKey, "wrong") := ⟨_, _, rfl, rfl, rfl, rfl⟩
  obtain ⟨-, -, hdeleted⟩ := delete_leaves_temporary plainPrimitives_strict hpath rfl rfl hr hidle
  obtain ⟨hgone, -, -, hleaves⟩ := hdeleted w hs
  simp only [Disk.Recovers, hleft] at hleaves
  exact ⟨v, w, hr, hs, hgone, hleaves.1⟩

end OmniMesh.Identity
