import Mathlib.Logic.Function.Basic
import Mathlib.Logic.Relation
import OmniMesh.Routing.Router

/-!
# Link state in a mesh (`run_gossip_loop` and the control packets of `handle_wire_packet`)

The nodes and their sessions are fixed. A tick of `run_gossip_loop` visits the session peers one by one,
and each update goes to all sessions of the node; the packets are delivered in any order. A receiver
passes the update to `process_link_state_update` and drops the result.
-/

namespace OmniMesh.Routing
open OmniMesh.Core

/-- A finite connected mesh. -/
structure Topology where
  nodes : List PeerId
  sessions : PeerId → List PeerId
  closed : ∀ u ∈ nodes, ∀ v ∈ sessions u, v ∈ nodes
  symm : ∀ u v, v ∈ sessions u → u ∈ sessions v
  irrefl : ∀ u, u ∉ sessions u
  connected : ∀ u ∈ nodes, ∀ w ∈ nodes, Relation.ReflTransGen (fun a b => b ∈ sessions a) u w

/-- `todo` are the session peers that the current tick of a node has still to visit, `ticked` says that a
node has begun a tick, and `flight` are the control packets on their way, each with its receiver.
`generated` and `heard` are histories: the updates a node has generated and those it has processed. -/
structure LinkStateMesh where
  routers : PeerId → Router
  todo : PeerId → List PeerId
  ticked : PeerId → Bool
  flight : List (PeerId × LinkStateUpdate)
  generated : PeerId → List LinkStateUpdate
  heard : PeerId → List LinkStateUpdate

inductive LinkStateAct
  | record (node peer : PeerId) (measurement : Measurement)
  | tick (node : PeerId) (order : List PeerId)
  | gossip (node : PeerId) (timestamp : UInt64)
  | deliver (packet : ℕ)

namespace LinkStateMesh

def init : LinkStateMesh := ⟨Router.new, fun _ => [], fun _ => false, [], fun _ => [], fun _ => []⟩

def setRouter (self : LinkStateMesh) (node : PeerId) (router : Router) : LinkStateMesh :=
  { self with routers := Function.update self.routers node router }

/-- One turn of the outer loop of a tick. -/
def gossip (T : Topology) (self : LinkStateMesh) (node peer : PeerId) (timestamp : UInt64) : LinkStateMesh :=
  match (self.routers node).getLinkStateUpdate peer timestamp with
  | (none, router) => self.setRouter node router
  | (some update, router) =>
      { self.setRouter node router with
        flight := self.flight ++ (T.sessions node).map fun receiver => (receiver, update)
        generated := Function.update self.generated node (self.generated node ++ [update]) }

def step (T : Topology) (self : LinkStateMesh) : LinkStateAct → Option LinkStateMesh
  | .record node peer measurement =>
      some (self.setRouter node ((self.routers node).record peer measurement.record))
  | .tick node order =>
      if self.todo node = [] ∧ order.Perm (T.sessions node) then
        some { self with
          todo := Function.update self.todo node order
          ticked := Function.update self.ticked node true }
      else none
  | .gossip node timestamp =>
      match self.todo node with
      | [] => none
      | peer :: rest =>
          some { self.gossip T node peer timestamp with todo := Function.update self.todo node rest }
  | .deliver packet =>
      match self.flight[packet]? with
      | none => none
      | some (receiver, update) =>
          some { self.setRouter receiver ((self.routers receiver).processLinkStateUpdate update).2 with
            flight := self.flight.eraseIdx packet
            heard := Function.update self.heard receiver (self.heard receiver ++ [update]) }

/-- The last update that a node has generated for a link of its own. -/
def lastUpdate (self : LinkStateMesh) (node peer : PeerId) : Option LinkStateUpdate :=
  (self.generated node).reverse.find? fun update => update.destination = peer

/-- A node begins a tick when it tracks its session peers. -/
def Tracking (T : Topology) (self : LinkStateMesh) : LinkStateAct → Prop
  | .tick node _ => ∀ peer ∈ T.sessions node, peer ∈ (self.routers node).localTrackers
  | _ => True

instance (T : Topology) (s : LinkStateMesh) (act : LinkStateAct) : Decidable (s.Tracking T act) :=
  match act with
  | .tick node _ =>
      inferInstanceAs (Decidable (∀ peer ∈ T.sessions node, peer ∈ (s.routers node).localTrackers))
  | .record .. | .gossip .. | .deliver .. => instDecidableTrue

/-- Every node has run a tick, and all control packets are delivered. -/
structure Quiet (T : Topology) (s : LinkStateMesh) : Prop where
  ticked : ∀ u ∈ T.nodes, s.ticked u = true ∧ s.todo u = []
  delivered : s.flight = []

/-- No node has measured a link anew since its last update. -/
def Current (T : Topology) (self : LinkStateMesh) : Prop :=
  ∀ u ∈ T.nodes, ∀ v ∈ T.sessions u, ∀ update, self.lastUpdate u v = some update →
    ((self.routers u).localTrackers.lookup v).map LinkMetricTracker.metrics = some update.metrics

/-- Every node knows every link, with the metrics of the update for it. -/
def Spread (T : Topology) (self : LinkStateMesh) : Prop :=
  ∀ u ∈ T.nodes, ∀ v ∈ T.sessions u, ∀ w ∈ T.nodes, ∃ update, self.lastUpdate u v = some update ∧
    (self.routers w).graph.getLink u v = some update.metrics

end LinkStateMesh

/-- Every two nodes share a session. -/
def Topology.Complete (T : Topology) : Prop :=
  ∀ u ∈ T.nodes, ∀ w ∈ T.nodes, u ≠ w → w ∈ T.sessions u

instance (T : Topology) : Decidable T.Complete :=
  inferInstanceAs (Decidable (∀ u ∈ T.nodes, ∀ w ∈ T.nodes, u ≠ w → w ∈ T.sessions u))

end OmniMesh.Routing
