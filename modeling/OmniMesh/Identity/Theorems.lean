import OmniMesh.Identity.Lemmas.Concrete
import OmniMesh.Identity.Lemmas.KeyStore

/-!
# The key store survives crashes
-/

namespace OmniMesh.Identity
open OmniMesh.Core

/-- Whatever stores are interrupted wherever, `load` finds the keypair of the last one that took effect,
exactly when the path has a file name with another extension than that of the temporary file. -/
theorem keystore_survives_crashes (P : Primitives) (path : Fs.Path) :
    (∀ files acts s, files path = none → Lts.run (Disk.step P path) (.init files) acts = some s →
      s.Recovers P path) ↔
    path.fileName ≠ none ∧ path.extension ≠ some ['t', 'm', 'p'] := by
  have hapart : tmpPath path = path ↔ path.fileName = none ∨ path.extension = some ['t', 'm', 'p'] :=
    Fs.Path.withExtension_eq_self_iff
  rw [← not_or, ← hapart]
  constructor
  · intro h hsame
    let keypair : Keypair := ⟨Vector.replicate 32 0⟩
    obtain ⟨acts, s, hr, hlast, hlost⟩ := Disk.exists_lost_key P hsame keypair keypair "" "" fun _ => none
    have hrecovers := h _ acts s rfl hr
    simp only [Disk.Recovers, hlast] at hrecovers
    obtain ⟨e, he⟩ := hlost ""
    rw [he] at hrecovers
    cases hrecovers.1
  · intro hne files acts s hfile hr
    exact (Lts.run_invariant (I := Disk.Safe P path) (fun _ _ _ h hs => h.step hne hs)
      (Disk.init_safe hfile) hr).recovers

def firstKey : Keypair := ⟨Vector.replicate 32 1⟩

def secondKey : Keypair := ⟨Vector.replicate 32 2⟩

/-- A path `node.key` in some directory. -/
def keyPath : Fs.Path := ⟨some "/home/node", some ['n', 'o', 'd', 'e', '.', 'k', 'e', 'y']⟩

/-- The second store stops in the middle of its write; the first key is still there. -/
def interruptedRun : List DiskAct :=
  Disk.beginStore keyPath firstKey "right" ++ [.write 1000, .rename] ++
    Disk.beginStore keyPath secondKey "wrong" ++ [.write 7, .stop]

theorem keystore_survives_crashes_interrupted :
    ∃ s, Lts.run (Disk.step plainPrimitives keyPath) (.init fun _ => none) interruptedRun = some s ∧
      load plainPrimitives keyPath s.files "right" = .ok firstKey := by
  have hpath : keyPath.fileName ≠ none ∧ keyPath.extension ≠ some ['t', 'm', 'p'] := by decide
  obtain ⟨s, hr, hlast⟩ : ∃ s, Lts.run (Disk.step plainPrimitives keyPath) (.init fun _ => none)
      interruptedRun = some s ∧ s.last = some (firstKey, "right") := ⟨_, rfl, rfl⟩
  have hrecovers := (keystore_survives_crashes plainPrimitives keyPath).mpr hpath _ _ s rfl hr
  simp only [Disk.Recovers, hlast] at hrecovers
  exact ⟨s, hr, hrecovers.1⟩

/-- The path `key.tmp`. -/
def tmpKeyPath : Fs.Path := ⟨some "/home/node", some ['k', 'e', 'y', '.', 't', 'm', 'p']⟩

/-- Under this path the second store empties the file of the first one before it stops. -/
theorem interrupted_store_loses_key :
    ∃ acts s, Lts.run (Disk.step plainPrimitives tmpKeyPath) (.init fun _ => none) acts = some s ∧
      s.last = some (firstKey, "right") ∧
      ∃ e, load plainPrimitives tmpKeyPath s.files "right" = .error e := by
  have hsame : tmpPath tmpKeyPath = tmpKeyPath := rfl
  obtain ⟨acts, s, hr, hlast, hlost⟩ :=
    Disk.exists_lost_key plainPrimitives hsame firstKey secondKey "right" "wrong" fun _ => none
  exact ⟨acts, s, hr, hlast, hlost "right"⟩

end OmniMesh.Identity
