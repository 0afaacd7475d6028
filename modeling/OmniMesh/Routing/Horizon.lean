import OmniMesh.Routing.Forward
import OmniMesh.Routing.LinkState

/-!
# How far a node can route
-/

namespace OmniMesh.Routing
open OmniMesh.Core

/-- At most two sessions away. -/
def Topology.Near (T : Topology) (u target : PeerId) : Prop :=
  target = u ∨ target ∈ T.sessions u ∨ ∃ v ∈ T.sessions u, target ∈ T.sessions v

/-- Nodes measure the links to their session peers, as the pongs that they time come from these, and no sample
is negative. -/
def LinkStateMesh.Measuring (T : Topology) (_ : LinkStateMesh) : LinkStateAct → Prop
  | .record node peer measurement => peer ∈ T.sessions node ∧ 0 ≤ measurement.value
  | _ => True

end OmniMesh.Routing
