import OmniMesh.Cli.Config
import OmniMesh.Crypto.Lemmas.Concrete

/-!
# A concrete configuration format

It writes one configuration only. The instance is there to run the model: nothing general is proved from it.
-/

namespace OmniMesh.Cli
open OmniMesh.Core OmniMesh.Crypto

def oneConfig (config : Config) : Formats where
  fromToml text :=
    if text = "" then .ok .empty
    else if text = "c" then .ok config.document
    else .error "expected newline"
  toToml c := if c = config then .ok "c" else .error "unsupported value"
  parseAddr _ := none
  plain _ := True
  fromToml_toToml c text h := by
    split at h
    · rename_i hc
      cases h
      rw [hc]
      rfl
    · cases h
  fromToml_empty := rfl
  fromToml_part c text part document htext _ _ hdoc := by
    split at htext
    · rename_i hc
      subst hc
      split at hdoc
      · cases hdoc
        exact .inl rfl
      · split at hdoc
        · cases hdoc
          exact .inr rfl
        · cases hdoc
    · cases htext

/-- A configuration with its key outside the default directory. -/
def sampleConfig : Config where
  node := ⟨"alice", "/data", false, 256⟩
  transport := ⟨.v4 (Vector.replicate 4 0) 4433, [], 10000, 15⟩
  identity := ⟨⟨some "/keys", some "node.key".toList⟩, false, 720⟩
  telemetry := ⟨"info", false, false, none⟩
  storage := ⟨⟨some "/data", some "state.redb".toList⟩, 512⟩

def sampleEnv : Env := ⟨some "/home/alice", none, none, none, none, "00000000-0000-0000-0000-000000000000"⟩

end OmniMesh.Cli
