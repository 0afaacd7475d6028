import OmniMesh.Routing.Router

/-!
# Overlapping measurements

Each `record_*` call first updates the tracker, under the lock of its map entry, and then takes the
entry again and writes the link. Other tasks run between the two.
-/

namespace OmniMesh.Routing
open OmniMesh.Core

/-- `pending` are the peers of the `record_*` calls that have not yet written their link. -/
structure Recording where
  router : Router
  pending : List PeerId

inductive RecordAct
  | track (peer : PeerId) (measurement : Measurement)
  | publish (peer : PeerId)
  | gossip (update : LinkStateUpdate)

namespace Recording

def init (localPeerId : PeerId) : Recording := ⟨.new localPeerId, []⟩

def step (s : Recording) : RecordAct → Option Recording
  | .track peer measurement =>
      let trackers := s.router.localTrackers.insert peer (measurement.record (s.router.tracker peer))
      some ⟨{ s.router with localTrackers := trackers }, peer :: s.pending⟩
  | .publish peer =>
      if peer ∈ s.pending then some ⟨s.router.updateGraphLink peer, s.pending.erase peer⟩ else none
  | .gossip update => some { s with router := (s.router.processLinkStateUpdate update).2 }

/-- The metrics of the local tracker, if there is one. -/
def measured (s : Recording) (peer : PeerId) : Option LinkMetrics :=
  (s.router.localTrackers.lookup peer).map LinkMetricTracker.metrics

/-- With no call between its steps, the own links are what the trackers measure. -/
def Mirrored (s : Recording) : Prop :=
  s.pending = [] → ∀ peer, s.router.graph.getLink s.router.localPeerId peer = s.measured peer

/-- An update that names the local peer as its source is old, repeats what the tracker measures, or is
written over by a call that is under way. -/
def Harmless (s : Recording) : RecordAct → Prop
  | .gossip update => update.source = s.router.localPeerId →
      update.sequence ≤
        (s.router.gossipSequences.lookup (update.source, update.destination)).getD 0 ∨
      s.measured update.destination = some update.metrics ∨ update.destination ∈ s.pending
  | _ => True

end Recording

end OmniMesh.Routing
