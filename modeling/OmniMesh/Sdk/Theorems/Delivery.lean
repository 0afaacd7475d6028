import OmniMesh.Sdk.Lemmas.Concrete
import OmniMesh.Sdk.Lemmas.Hub

/-!
# Messages between the services of two nodes
-/

namespace OmniMesh.Sdk
open OmniMesh.Core OmniMesh.Crypto OmniMesh.Service

/-- In whatever order the tasks of a node hand over their packets, the handlers of the other node are called
with the first of the messages that the node has sent to registered services, each once and in the order of
sealing. Nothing is left out once nothing is on its way, when the packets were handed over in that order. -/
theorem messages_handled_in_order {σ β : Type} {K : Role → Cipher} {D : UpdateDecoder} {S : Services σ}
    {peer : Role → PeerId} {use : σ → β → Option σ} {known : String → Bool}
    {remoteStatic : Role → Option Key} {services : Role → σ} {acts : List (PeersAct β)} {t : Peers σ}
    (hknown : ∀ services id, S.registered services id = known id)
    (hr : Lts.run (Peers.step K D S peer use) (.init remoteStatic services) acts = some t) (r : Role) :
    t.handled r.other <+: ((t.sent r).filter fun m => known m.serviceId) ∧
      (Lts.Meets (Peers.step K D S peer use) (Peers.InTurn S peer) (.init remoteStatic services) acts →
        t.Settled r → t.handled r.other = (t.sent r).filter fun m => known m.serviceId) :=
  have hsound := Peers.run_sound hknown hr
  ⟨hsound.handled_begins r, fun hturn => hsound.handled_of_settled (Peers.run_sync hturn hr)⟩

/-- Two nodes with fresh services. -/
def freshPeers : Peers Hub := .init (fun _ => none) fun _ => .new

def newsMessage : ServicePayload := ⟨"pubsub", PubSubService.formatPublish "news" [7]⟩

/-- A third node publishes on a topic to which the responder has subscribed, and then the initiator does. -/
def publishRun : List (PeersAct HubAct) :=
  .use .responder (.pubsub (.handleMessage (samplePeer 3) (PubSubService.formatPublish "news" [9]))) ::
    carried .initiator (.broadcastToPeers "pubsub" (PubSubService.formatPublish "news" [7]))

theorem publishRun_inTurn : Lts.Meets (Peers.step nonceCiphers noUpdates Hub.services peerOfRole Hub.use)
    (Peers.InTurn Hub.services peerOfRole) freshPeers
    ([] ++ .use .responder (.pubsub (.subscribe "news")) :: publishRun) := by
  refine .cons trivial rfl <| .cons trivial rfl <| .cons trivial rfl <|
    .cons (End.inTurn_enqueue_only rfl rfl) rfl <| .cons trivial rfl <| .cons trivial rfl <|
    .cons trivial rfl <| .cons ?_ rfl trivial
  intro hping
  cases hping

theorem publishRun_settled : ∃ t, Lts.run (Peers.step nonceCiphers noUpdates Hub.services peerOfRole Hub.use)
    freshPeers (.use .responder (.pubsub (.subscribe "news")) :: publishRun) = some t ∧
    t.sent .initiator = [newsMessage] ∧ t.Settled .initiator := by
  have hrun : ∃ t, Lts.run (Peers.step nonceCiphers noUpdates Hub.services peerOfRole Hub.use) freshPeers
      (.use .responder (.pubsub (.subscribe "news")) :: publishRun) = some t ∧
      t.sent .initiator = [newsMessage] ∧ (t.session .initiator).held = ∅ ∧
      (t.session .initiator).dropped = [] ∧ (t.session .initiator).queue = [] ∧
      (t.session .initiator).wire = [] ∧ (t.session .initiator).loop = .idle ∧
      (t.session .responder).loop = .idle := ⟨_, rfl, rfl, rfl, rfl, rfl, rfl, rfl, rfl⟩
  obtain ⟨t, hr, hsent, hheld, hdropped, hqueue, hwire, hidle, hidle'⟩ := hrun
  exact ⟨t, hr, hsent, .of_idle hheld hdropped hqueue hwire hidle hidle'⟩

theorem messages_handled_in_order_news :
    ∃ t, Lts.run (Peers.step nonceCiphers noUpdates Hub.services peerOfRole Hub.use) freshPeers
        (.use .responder (.pubsub (.subscribe "news")) :: publishRun) = some t ∧
      t.handled .responder = [newsMessage] := by
  obtain ⟨t, hr, hsent, hsettled⟩ := publishRun_settled
  have hhandled := (messages_handled_in_order (fun _ _ => rfl) hr .initiator).2 publishRun_inTurn hsettled
  rw [hsent] at hhandled
  exact ⟨t, hr, hhandled⟩

end OmniMesh.Sdk
