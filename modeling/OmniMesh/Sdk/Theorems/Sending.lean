import OmniMesh.Sdk.Lemmas.Answering
import OmniMesh.Sdk.Lemmas.Broadcast
import OmniMesh.Sdk.Lemmas.Concrete

/-!
# What the senders of a node achieve
-/

namespace OmniMesh.Sdk
open OmniMesh.Core OmniMesh.Crypto OmniMesh.Service

/-! ## Responses -/

def freshTransports : ℕ → NoiseTransport := fun _ => .fresh .responder none

/-- The service after `requestRun` and the end of the handler. -/
def handled (outcome : Result Bytes) : RpcService :=
  { RpcService.new with tasks := [⟨⟨0, samplePeer 1, 1, "echo", [7]⟩, some outcome⟩] }

def servingNode : Node := ⟨AList.singleton (samplePeer 1) 0, AList.singleton 0 (.running (samplePeer 1) false), .no⟩

/-- The node with one session. -/
def connected : Outgoing := ⟨servingNode, fun conn => ⟨freshTransports conn, [], []⟩, []⟩

end OmniMesh.Sdk
