import OmniMesh.Core.Lemmas.Concrete
import OmniMesh.Service.Lemmas.Network
import OmniMesh.Service.Lemmas.Pending
import OmniMesh.Service.Lemmas.PubSub
import OmniMesh.Service.Lemmas.Rpc

/-!
# Remote procedure calls
-/

namespace OmniMesh.Service
open OmniMesh.Core

/-! ## One service among peers that may be hostile -/

/-- A call returns the response of the peer it called as long as no other peer answers it; when another
one does, the call can return its response. -/
theorem answers_come_from_callee (s : RpcService) :
    (∀ acts, Lts.Meets RpcService.step RpcService.FromCallee .new acts →
      Lts.run RpcService.step .new acts = some s →
      ∀ (i : ℕ) (c : RpcCall) (payload : Except String Bytes), s.calls[i]? = some c →
        c.progress = .answered payload →
        ∃ n bytes, c.channel = .filled n c.request.target payload ∧
          .deliver n c.request.target bytes ∈ acts ∧
          RpcMessage.codec.deserialize bytes = .ok (.response c.request.requestId payload)) ∧
    ∀ act t, ¬ RpcService.FromCallee s act → s.step act = some t →
      ∃ (more : List RpcAct) (u : RpcService) (i : ℕ) (c : RpcCall) (n : ℕ) (sender : PeerId)
        (payload : Except String Bytes), Lts.run RpcService.step t more = some u ∧
        u.calls[i]? = some c ∧ c.progress = .answered payload ∧
        c.channel = .filled n sender payload ∧ sender ≠ c.request.target := by
  refine ⟨fun acts hm hr i c payload hi hp => ?_, fun act t hf hs => ?_⟩
  · obtain ⟨n, sender, hc⟩ := ((RpcService.run_wf hr).calls i c hi).answered payload hp
    obtain rfl := RpcService.run_genuine hm hr i c n sender payload hi hc (.inr (.inr ⟨payload, hp⟩))
    rcases RpcService.new_wf.filled_run hr hi hc with ⟨_, hnone, -⟩ | ⟨bytes, hmem, hd⟩
    · cases hnone
    · exact ⟨n, bytes, hc, hmem, hd⟩
  · exact RpcService.exists_foreign_answer hf hs

def reply : Bytes := RpcMessage.codec.serialize (.response 1 (.ok [7]))

/-- The first call of a service, to node 1, and a reply under its number. -/
def answeredBy (sender : PeerId) : List RpcAct :=
  [.reserve (samplePeer 1) "echo" [7], .register 0, .sent 0 (.ok ()), .deliver 0 sender reply, .received 0]

/-- The service after `answeredBy`. -/
def afterAnswer (sender : PeerId) : RpcService :=
  ⟨2, ∅, [⟨⟨samplePeer 1, 1, "echo", [7]⟩, .filled 0 sender (.ok [7]), .answered (.ok [7])⟩], []⟩

theorem run_answeredBy (sender : PeerId) :
    Lts.run RpcService.step .new (answeredBy sender) = some (afterAnswer sender) := rfl

theorem answers_come_from_callee_honest :
    ∃ bytes, .deliver 0 (samplePeer 1) bytes ∈ answeredBy (samplePeer 1) ∧
      RpcMessage.codec.deserialize bytes = .ok (.response 1 (.ok [7])) := by
  have hm : Lts.Meets RpcService.step RpcService.FromCallee .new (answeredBy (samplePeer 1)) := by
    refine .cons trivial rfl <| .cons trivial rfl <| .cons trivial rfl <| .cons ?_ rfl <|
      .cons trivial rfl trivial
    intro id payload i c _ _ hc _
    cases i with
    | zero =>
        cases hc
        rfl
    | succ i => cases hc
  obtain ⟨n, bytes, hc, hmem, hd⟩ := (answers_come_from_callee _).1 _ hm (run_answeredBy _) 0 _ _ rfl rfl
  cases hc
  exact ⟨bytes, hmem, hd⟩

theorem answered_by_stranger :
    ∃ s, Lts.run RpcService.step .new (answeredBy (samplePeer 2)) = some s ∧
      s.calls.map (·.request.target) = [samplePeer 1] ∧
      s.calls.map (·.progress.returned) = [some (.ok [7])] ∧
      ∀ n bytes, .deliver n (samplePeer 1) bytes ∉ answeredBy (samplePeer 2) := by
  refine ⟨afterAnswer (samplePeer 2), rfl, rfl, rfl, fun n bytes hmem => ?_⟩
  simp only [answeredBy, List.mem_cons, List.not_mem_nil, reduceCtorEq, false_or, or_false,
    RpcAct.deliver.injEq] at hmem
  exact absurd hmem.2.1 (by decide)

/-- The table has exactly the numbers of the calls that wait for a response as long as no call ends before
something has come for it; a call that does leaves its number in the table. -/
theorem pending_exact (s : RpcService) :
    (∀ acts, Lts.Meets RpcService.step RpcService.Kept .new acts →
      Lts.run RpcService.step .new acts = some s → s.Exact) ∧
    ∀ acts act t, Lts.run RpcService.step .new acts = some s → ¬ s.Kept act →
      s.step act = some t → ¬ t.Exact := by
  refine ⟨fun acts hm hr => ?_, fun acts act t hr hk hs => ?_⟩
  · rw [RpcService.exact_iff_open (RpcService.run_wf hr) (RpcService.run_registered hr)]
    exact RpcService.run_open hm hr
  · rw [RpcService.exact_iff_open ((RpcService.run_wf hr).step hs) ((RpcService.run_registered hr).step hs)]
    exact RpcService.not_open_of_not_kept hk hs

theorem pending_exact_answered :
    (afterAnswer (samplePeer 1)).Exact ∧
      ∃ s t, Lts.run RpcService.step .new [.reserve (samplePeer 1) "echo" [7], .register 0] = some s ∧
        s.step (.drop 0) = some t ∧ ¬ t.Exact := by
  have hm : Lts.Meets RpcService.step RpcService.Kept .new (answeredBy (samplePeer 1)) :=
    .cons trivial rfl <| .cons trivial rfl <| .cons trivial rfl <| .cons trivial rfl <|
      .cons trivial rfl trivial
  refine ⟨(pending_exact _).1 _ hm (run_answeredBy _), _, _, rfl, rfl, ?_⟩
  exact (pending_exact _).2 [.reserve (samplePeer 1) "echo" [7], .register 0] (.drop 0) _ rfl
    (fun hk => hk _ rfl rfl) rfl

/-- The first call of a service to a peer that cannot be reached. -/
def unsentCall : List RpcAct :=
  [.reserve (samplePeer 1) "echo" [7], .register 0,
    .sent 0 (.error (.connection "session write channel closed"))]

/-- The call returns the error of `send_message` and its number stays in the table. -/
theorem unsent_call_stays_pending :
    ∃ s, Lts.run RpcService.step .new unsentCall = some s ∧
      s.calls.map (·.progress.returned) = [some (.error (.connection "session write channel closed"))] ∧
      RpcService.new.pendingRequests = ∅ ∧ 1 ∈ s.pendingRequests ∧
      (∀ (i : ℕ) (c : RpcCall), s.calls[i]? = some c → ¬ c.Waits) := by
  refine ⟨_, rfl, rfl, rfl, by decide, fun i c hi hw => ?_⟩
  cases i with
  | zero =>
      cases hi
      rcases hw.2 with he | he
      · cases he
      · cases he
  | succ i => cases hi

/-! ## Nodes that all run the service -/

/-- A receiver that is not dropped is sent the payloads of the well-formed messages of its topic that are
handled after its subscription. Other messages and the drop of another receiver change nothing for it. -/
theorem pubsub_delivers (topic : String) :
    (∀ before after s,
      Lts.run PubSubService.step .new (before ++ .subscribe topic :: after) = some s →
      .dropReceiver (before.countP PubSubAct.isSubscribe) ∉ after →
      s.channels[before.countP PubSubAct.isSubscribe]? =
        some ⟨false, after.filterMap (PubSubAct.payloadFor topic)⟩) ∧
    (∀ (s : PubSubService) payload e, PubSubMessage.codec.deserialize payload = .error e →
      s.handleMessage payload = (.error (.serialization s!"pubsub deserialize: {e}"), s)) ∧
    ∀ (s t : PubSubService) receiver, s.step (.dropReceiver receiver) = some t →
      t.subscriptions = s.subscriptions ∧
      ∀ i, i ≠ receiver → t.channels[i]? = s.channels[i]? := by
  refine ⟨fun before after s => PubSubService.run_subscribe, fun s payload e hd => ?_,
    fun s t receiver hs => ?_⟩
  · simp only [PubSubService.handleMessage, hd]
  · cases PubSubService.step_moves hs with
    | dropped => exact ⟨rfl, fun i hne => List.getElem?_modify_ne _ _ (Ne.symm hne)⟩

/-- One receiver is dropped, the other one gets what its topic brings. -/
def twoTopics : List PubSubAct :=
  [.handleMessage (samplePeer 1) [0xFF],
    .handleMessage (samplePeer 1) (PubSubService.formatPublish "news" [7]),
    .handleMessage (samplePeer 2) (PubSubService.formatPublish "chat" [8]),
    .handleMessage (samplePeer 2) (PubSubService.formatPublish "news" [9])]

theorem pubsub_delivers_twoTopics :
    ∃ s, Lts.run PubSubService.step .new
        ([.subscribe "news", .dropReceiver 0] ++ .subscribe "news" :: twoTopics) = some s ∧
      s.channels[1]? = some ⟨false, [[7], [9]]⟩ := by
  have hbad : PubSubAct.payloadFor "news" (.handleMessage (samplePeer 1) [0xFF]) = none := rfl
  have hpay : ∀ sender topic b, topic.utf8ByteSize < 256 ^ 8 →
      PubSubAct.payloadFor "news" (.handleMessage sender (PubSubService.formatPublish topic [b])) =
        if topic = "news" then some [b] else none :=
    fun _ _ _ ht => PubSubService.payloadFor_formatPublish ht (show 1 < 256 ^ 8 by decide)
  have hnews : "news".utf8ByteSize < 256 ^ 8 := by decide
  have hchat : "chat".utf8ByteSize < 256 ^ 8 := by decide
  refine ⟨_, rfl, ?_⟩
  apply ((pubsub_delivers "news").1 [.subscribe "news", .dropReceiver 0] twoTopics _ rfl ?_).trans
  · simp [twoTopics, hbad, hpay _ _ _ hnews, hpay _ _ _ hchat]
  · simp [twoTopics]

end OmniMesh.Service
