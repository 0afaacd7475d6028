import OmniMesh.Lib.Run
import OmniMesh.Routing.Graph

/-!
# The router (`omnimesh-routing/src/router.rs`)
-/

namespace OmniMesh.Routing
open OmniMesh.Core

structure LinkStateUpdate where
  source : PeerId
  destination : PeerId
  metrics : LinkMetrics
  sequence : UInt64
  timestamp : UInt64
  deriving DecidableEq, Repr

structure Router where
  localPeerId : PeerId
  localTrackers : Map PeerId LinkMetricTracker
  graph : RouteGraph
  gossipSequences : Map (PeerId × PeerId) UInt64
  sequenceGenerator : UInt64

namespace Router

def new (localPeerId : PeerId) : Router := ⟨localPeerId, ∅, .new, ∅, 1⟩

def tracker (self : Router) (peer : PeerId) : LinkMetricTracker :=
  (self.localTrackers.lookup peer).getD (.new .default)

def updateGraphLink (self : Router) (peer : PeerId) : Router :=
  match self.localTrackers.lookup peer with
  | some tracker => { self with graph := self.graph.addLink self.localPeerId peer tracker.metrics }
  | none => self

/-- What the three `record_*` methods share: one tracker method, then `update_graph_link`. -/
def record (self : Router) (peer : PeerId) (method : LinkMetricTracker → LinkMetricTracker) : Router :=
  { self with localTrackers := self.localTrackers.insert peer (method (self.tracker peer)) }
    |>.updateGraphLink peer

def recordLatency (self : Router) (peer : PeerId) (latencyMs : ℚ) : Router :=
  self.record peer (·.recordLatency latencyMs)

def recordBandwidth (self : Router) (peer : PeerId) (bandwidthKbps : ℚ) : Router :=
  self.record peer (·.recordBandwidth bandwidthKbps)

def recordLossRate (self : Router) (peer : PeerId) (lossRate : ℚ) : Router :=
  self.record peer (·.recordLossRate lossRate)

/-- `process_link_state_update`: whether the update is new, and the router after it. -/
def processLinkStateUpdate (self : Router) (update : LinkStateUpdate) : Bool × Router :=
  let key := (update.source, update.destination)
  let currentSeq := (self.gossipSequences.lookup key).getD 0
  if update.sequence ≤ currentSeq then
    (false, { self with gossipSequences := self.gossipSequences.insert key currentSeq })
  else
    (true, { self with
      gossipSequences := self.gossipSequences.insert key update.sequence
      graph := self.graph.addLink update.source update.destination update.metrics })

/-- The router after a sequence of updates. -/
def processAll (self : Router) (updates : List LinkStateUpdate) : Router :=
  updates.foldl (fun r update => (r.processLinkStateUpdate update).2) self

/-- `get_link_state_update` at the time `timestamp`; the generator wraps around. -/
def getLinkStateUpdate (self : Router) (peer : PeerId) (timestamp : UInt64) :
    Option LinkStateUpdate × Router :=
  match self.localTrackers.lookup peer with
  | none => (none, self)
  | some tracker =>
      (some ⟨self.localPeerId, peer, tracker.metrics, self.sequenceGenerator, timestamp⟩,
        { self with sequenceGenerator := self.sequenceGenerator + 1 })

/-- `find_route` as it starts; its turns are those of `RouteGraph.step` on the router's graph. -/
def findRoute (self : Router) : Phase := .searching (.init self.localPeerId)

/-- `next_hop` once its `find_route` has returned. -/
def nextHop (route : Option (List PeerId)) : Option PeerId :=
  route.bind fun path => if path.length > 1 then path[1]? else none

inductive Call
  | recordLatency (peer : PeerId) (latencyMs : ℚ)
  | recordBandwidth (peer : PeerId) (bandwidthKbps : ℚ)
  | recordLossRate (peer : PeerId) (lossRate : ℚ)
  | processLinkStateUpdate (update : LinkStateUpdate)

def step (self : Router) : Call → Option Router
  | .recordLatency peer latencyMs => some (self.recordLatency peer latencyMs)
  | .recordBandwidth peer bandwidthKbps => some (self.recordBandwidth peer bandwidthKbps)
  | .recordLossRate peer lossRate => some (self.recordLossRate peer lossRate)
  | .processLinkStateUpdate update => some (self.processLinkStateUpdate update).2

end Router

end OmniMesh.Routing
