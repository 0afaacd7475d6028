import OmniMesh.Routing.Router

/-!
# A sender that restarts

A node shares the measurements of its links and may restart, with a new router under the same peer
id; another router keeps running and hears its updates in any order, any number of times or not at
all.
-/

namespace OmniMesh.Routing
open OmniMesh.Core

/-- `generated` are the updates of the sender in their order, and `heard` the positions in it that the
receiver has processed. -/
structure Sharing where
  sender : Router
  generated : List LinkStateUpdate
  receiver : Router
  heard : List ℕ

inductive ShareAct
  | record (peer : PeerId) (measurement : Measurement)
  | generate (peer : PeerId) (timestamp : UInt64)
  | restart
  | deliver (index : ℕ)

namespace Sharing

def init (source receiver : PeerId) : Sharing := ⟨.new source, [], .new receiver, []⟩

def step (s : Sharing) : ShareAct → Option Sharing
  | .record peer measurement => some { s with sender := s.sender.record peer measurement.record }
  | .generate peer timestamp =>
      let (update, sender) := s.sender.getLinkStateUpdate peer timestamp
      some { s with sender, generated := s.generated ++ update.toList }
  | .restart => some { s with sender := .new s.sender.localPeerId }
  | .deliver index =>
      match s.generated[index]? with
      | none => none
      | some update =>
          some { s with
            receiver := (s.receiver.processLinkStateUpdate update).2
            heard := s.heard ++ [index] }

/-- The update at this position is the last one generated for its link. -/
def Newest (s : Sharing) (index : ℕ) (update : LinkStateUpdate) : Prop :=
  s.generated[index]? = some update ∧
    ∀ later u, index < later → s.generated[later]? = some u → u.destination ≠ update.destination

/-- Once the receiver has processed the newest update of a link, it has its metrics. -/
def NewestWins (s : Sharing) : Prop :=
  ∀ index update, s.Newest index update → index ∈ s.heard →
    s.receiver.graph.getLink s.sender.localPeerId update.destination = some update.metrics

/-- The sender's counter is not 0 and above that of every earlier update for the link that carries other
metrics. -/
def Fresh (s : Sharing) : ShareAct → Prop
  | .generate peer _ => ∀ tracker, s.sender.localTrackers.lookup peer = some tracker →
      0 < s.sender.sequenceGenerator ∧ ∀ u ∈ s.generated, u.destination = peer →
        u.metrics ≠ tracker.metrics → u.sequence < s.sender.sequenceGenerator
  | _ => True

end Sharing

end OmniMesh.Routing
