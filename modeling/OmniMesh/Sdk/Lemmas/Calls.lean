import OmniMesh.Sdk.Calls
import OmniMesh.Sdk.Lemmas.Delivery
import OmniMesh.Service.Lemmas.Network

/-!
# From a call to the handler of the other node and back

`RpcTraced` ties the tasks and the answers of a node to messages that were handled, `sent_made` the messages
that were sent to calls and tasks of the sender. The session ties the two nodes together.
-/

namespace OmniMesh.Service.RpcService
open OmniMesh.Core

variable {s t u : RpcService} {act : RpcAct} {k : ℕ}

theorem Extends.trans (h : Extends s t) (h' : Extends t u) : Extends s u := by
  refine ⟨fun i c hi => ?_, fun k τ hk => ?_⟩
  · obtain ⟨c', hi', hreq, hans⟩ := h.calls i c hi
    obtain ⟨c'', hi'', hreq', hans'⟩ := h'.calls i c' hi'
    exact ⟨c'', hi'', hreq'.trans hreq, fun payload hp => hans' payload (hans payload hp)⟩
  · obtain ⟨τ', hk', hinv, hout⟩ := h.tasks k τ hk
    obtain ⟨τ'', hk'', hinv', hout'⟩ := h'.tasks k τ' hk'
    exact ⟨τ'', hk'', hinv'.trans hinv, fun o ho => hout' o (hout o ho)⟩

theorem outcome_of_step {τ' : RpcTask} {o : Result Bytes} (hs : s.step act = some t)
    (hk : t.tasks[k]? = some τ') (ho : τ'.outcome = some o) :
    s.tasks[k]? = some τ' ∨ act = .finish k o ∧ s.tasks[k]? = some ⟨τ'.invocation, none⟩ ∧
      payloadSize (outcomePayload o) < 2 ^ 64 := by
  cases step_moves hs with
  | spawn _ =>
      rcases Table.getElem?_concat_some hk with hk | ⟨-, rfl⟩
      · exact .inl hk
      · cases ho
  | @finish j invocation outcome hj hsize =>
      rcases Table.getElem?_set_some hk with ⟨rfl, rfl⟩ | ⟨-, hk⟩
      · cases ho
        exact .inr ⟨rfl, hj, hsize⟩
      · exact .inl hk
  | reserve _ _ => exact .inl hk
  | register _ => exact .inl hk
  | advance _ _ _ _ => exact .inl hk
  | answer _ _ => exact .inl hk
  | ignore => exact .inl hk

end OmniMesh.Service.RpcService

namespace OmniMesh.Sdk
open OmniMesh.Core OmniMesh.Crypto OmniMesh.Service

variable {sender : PeerId}

/-! ## The service of one node -/

namespace Hub

variable {hub hub' : Hub} {handled : List ServicePayload} {trace : List (HubAct ⊕ ServicePayload)}

/-- What a step of the services is for calls. -/
theorem step_rpc {a : HubAct ⊕ ServicePayload} (hs : services.step use sender hub a = some hub') :
    hub'.rpc = hub.rpc ∨ ∃ act, hub.rpc.step act = some hub'.rpc ∧
      (∀ n p bytes, act = .deliver n p bytes →
        (p = sender ∧ a = .inr ⟨"rpc", bytes⟩) ∨ a = .inl (.rpc (.deliver n p bytes))) ∧
      ∀ task outcome, act = .finish task outcome → a = .inl (.rpc act) := by
  cases a with
  | inr message =>
      obtain ⟨serviceId, payload⟩ := message
      cases hs
      by_cases hid : serviceId = "rpc"
      · subst hid
        refine .inr ⟨.deliver hub.received sender payload, rfl, fun n p bytes hact => ?_, fun _ _ hact => ?_⟩
        · cases hact
          exact .inl ⟨rfl, rfl⟩
        · cases hact
      · simp only [Services.deliver, services, hid, if_false]
        split
        · exact .inl rfl
        · split <;> exact .inl rfl
  | inl act =>
      cases act with
      | chat act =>
          obtain ⟨chat, -, rfl⟩ := Option.map_eq_some_iff.mp hs
          exact .inl rfl
      | pubsub act =>
          obtain ⟨pubsub, -, rfl⟩ := Option.map_eq_some_iff.mp hs
          exact .inl rfl
      | rpc act =>
          obtain ⟨rpc, hstep, rfl⟩ := Option.map_eq_some_iff.mp hs
          exact .inr ⟨act, hstep, fun _ _ _ hact => .inr (by rw [hact]), fun _ _ _ => rfl⟩

theorem rpc_extends (hr : Lts.run (services.step use sender) hub trace = some hub') :
    hub.rpc.Extends hub'.rpc := by
  refine Lts.run_invariant (I := fun hub' : Hub => hub.rpc.Extends hub'.rpc) ?_ .refl hr
  intro hub₁ a hub₂ h hs
  rcases step_rpc hs with heq | ⟨act, hact, -⟩
  · rw [heq]
    exact h
  · exact h.trans (RpcService.step_extends hact)

theorem outcome_of_deliver {messages : List ServicePayload} {k : ℕ} {τ : RpcTask} {o : Result Bytes}
    (hk : (messages.foldl (services.deliver sender) hub).rpc.tasks[k]? = some τ) (ho : τ.outcome = some o) :
    hub.rpc.tasks[k]? = some τ := by
  have hr : Lts.run (services.step use sender) hub (messages.map .inr) =
      some (messages.foldl (services.deliver sender) hub) := services.run_deliver messages
  refine Lts.run_invariant_of_mem (I := fun hub' : Hub => hub'.rpc.tasks[k]? = some τ →
    hub.rpc.tasks[k]? = some τ) ?_ id hr hk
  intro hub₁ a hub₂ hmem h hs hk
  obtain ⟨message, -, rfl⟩ := List.mem_map.mp hmem
  rcases step_rpc hs with heq | ⟨act, hact, -, hfinish⟩
  · rw [heq] at hk
    exact h hk
  · rcases RpcService.outcome_of_step hact hk ho with hk₀ | ⟨rfl, -⟩
    · exact h hk₀
    · cases hfinish _ _ rfl

/-- Tasks and answers come from messages that were handled. -/
structure RpcTraced (sender : PeerId) (handled : List ServicePayload) (s : RpcService) : Prop where
  wf : s.Wf
  numbered : s.Numbered
  tasks : ∀ (k : ℕ) (τ : RpcTask), s.tasks[k]? = some τ → τ.invocation.sender = sender ∧
    ∃ bytes, ⟨"rpc", bytes⟩ ∈ handled ∧ RpcMessage.codec.deserialize bytes =
      .ok (.request τ.invocation.requestId τ.invocation.method τ.invocation.payload)
  outcomes : ∀ (k : ℕ) (τ : RpcTask) (o : Result Bytes), s.tasks[k]? = some τ → τ.outcome = some o →
    payloadSize (outcomePayload o) < 2 ^ 64
  answers : ∀ (i : ℕ) (c : RpcCall) (n : ℕ) (p : PeerId) (payload : Except String Bytes),
    s.calls[i]? = some c → c.channel = .filled n p payload →
    ∃ bytes, ⟨"rpc", bytes⟩ ∈ handled ∧
      RpcMessage.codec.deserialize bytes = .ok (.response c.request.requestId payload)

theorem RpcTraced.step {a : HubAct ⊕ ServicePayload} (h : RpcTraced sender handled hub.rpc)
    (ha : ∀ message, a = .inr message → message ∈ handled)
    (halone : ∀ n p bytes, a ≠ .inl (.rpc (.deliver n p bytes)))
    (hs : services.step use sender hub a = some hub') : RpcTraced sender handled hub'.rpc := by
  rcases step_rpc hs with heq | ⟨act, hact, hdeliver, -⟩
  · rw [heq]
    exact h
  have hsession : ∀ n p bytes, act = .deliver n p bytes → p = sender ∧ a = .inr ⟨"rpc", bytes⟩ :=
    fun n p bytes hact => (hdeliver n p bytes hact).resolve_right (halone n p bytes)
  refine ⟨h.wf.step hact, h.numbered.step hact, fun k τ hk => ?_, fun k τ o hk ho => ?_,
    fun i c n p payload hi hc => ?_⟩
  · rcases RpcService.task_of_step hact hk with ⟨τ₀, hk₀, hinv⟩ | ⟨bytes, rfl, hd⟩
    · rw [hinv]
      exact h.tasks k τ₀ hk₀
    · obtain ⟨hsender, rfl⟩ := hsession _ _ _ rfl
      exact ⟨hsender, bytes, ha _ rfl, hd⟩
  · rcases RpcService.outcome_of_step hact hk ho with hk₀ | ⟨-, -, hsize⟩
    · exact h.outcomes k τ o hk₀ ho
    · exact hsize
  · rcases h.wf.filled_step hact hi hc with ⟨c₀, hi₀, hc₀, hreq⟩ | ⟨bytes, rfl, hd⟩
    · rw [← hreq]
      exact h.answers i c₀ n p payload hi₀ hc₀
    · obtain ⟨-, rfl⟩ := hsession _ _ _ rfl
      exact ⟨bytes, ha _ rfl, hd⟩

end Hub

/-! ## The messages of the two nodes -/

theorem RpcMade.mono {s t : RpcService} {target : PeerId} {bytes : Bytes} (h : RpcMade s target bytes)
    (hext : s.Extends t) : RpcMade t target bytes := by
  cases h with
  | @call i c hi htarget =>
      obtain ⟨c', hi', hreq, -⟩ := hext.calls i c hi
      rw [← hreq] at htarget ⊢
      exact .call hi' htarget
  | @task k τ o hk ho hsender =>
      obtain ⟨τ', hk', hinv, hout⟩ := hext.tasks k τ hk
      rw [← hinv] at hsender ⊢
      exact .task hk' (hout o ho) hsender

/-- A request is that of a call, and a response that of a task. -/
theorem RpcMade.request {s : RpcService} {handled : List ServicePayload} {target : PeerId} {bytes : Bytes}
    {id : UInt64} {method : String} {payload : Bytes} (h : RpcMade s target bytes)
    (hs : Hub.RpcTraced sender handled s)
    (hd : RpcMessage.codec.deserialize bytes = .ok (.request id method payload)) :
    ∃ (i : ℕ) (c : RpcCall), s.calls[i]? = some c ∧ c.request = ⟨target, id, method, payload⟩ := by
  cases h with
  | @call i c hi htarget =>
      rw [Codec.deserialize_serialize (hs.numbered.calls i c hi).2] at hd
      cases hd
      subst htarget
      exact ⟨i, c, hi, rfl⟩
  | @task k τ o hk ho hsender =>
      rw [RpcInvocation.response, Codec.deserialize_serialize (response_fits (hs.outcomes k τ o hk ho))] at hd
      cases hd

theorem RpcMade.response {s : RpcService} {handled : List ServicePayload} {target : PeerId} {bytes : Bytes}
    {id : UInt64} {payload : Except String Bytes} (h : RpcMade s target bytes)
    (hs : Hub.RpcTraced sender handled s)
    (hd : RpcMessage.codec.deserialize bytes = .ok (.response id payload)) :
    ∃ (k : ℕ) (τ : RpcTask) (o : Result Bytes), s.tasks[k]? = some τ ∧ τ.outcome = some o ∧
      τ.invocation.sender = target ∧ τ.invocation.requestId = id ∧ outcomePayload o = payload := by
  cases h with
  | @call i c hi htarget =>
      rw [Codec.deserialize_serialize (hs.numbered.calls i c hi).2] at hd
      cases hd
  | @task k τ o hk ho hsender =>
      rw [RpcInvocation.response, Codec.deserialize_serialize (response_fits (hs.outcomes k τ o hk ho))] at hd
      cases hd
      exact ⟨k, τ, o, hk, ho, hsender, rfl, rfl⟩

namespace Peers

variable {K : Role → Cipher} {D : UpdateDecoder} {peer : Role → PeerId} {r : Role} {s t : Peers Hub}
  {act : PeersAct HubAct} {acts : List (PeersAct HubAct)} {remoteStatic : Role → Option Key}
  {handler : Role → RpcHandler}

/-- What the nodes have sent for `rpc` their services have made, and tasks have the results of handlers. -/
structure Made (handler : Role → RpcHandler) (peer : Role → PeerId) (s : Peers Hub) : Prop where
  sent : ∀ r, ∀ m ∈ s.sent r, m.serviceId = "rpc" → RpcMade (s.services r).rpc (peer r.other) m.payload
  outcomes : ∀ r (k : ℕ) (τ : RpcTask) (o : Result Bytes), (s.services r).rpc.tasks[k]? = some τ →
    τ.outcome = some o → handler r τ.invocation.sender τ.invocation.method τ.invocation.payload o

theorem Made.step (h : Made handler peer s) (hact : s.Runs handler peer act)
    (hs : s.step K D Hub.services peer Hub.use act = some t) : Made handler peer t := by
  have hext : ∀ r, (s.services r).rpc.Extends (t.services r).rpc := by
    intro r
    obtain ⟨trace, hserves⟩ := serves_step hs r
    exact Hub.rpc_extends hserves.run
  have hold : ∀ r, ∀ m ∈ s.sent r, m.serviceId = "rpc" →
      RpcMade (t.services r).rpc (peer r.other) m.payload :=
    fun r m hm hid => (h.sent r m hm hid).mono (hext r)
  cases step_moves hs with
  | @own r act e hown he =>
      refine ⟨fun r' m hm hid => ?_, h.outcomes⟩
      rcases Role.eq_or_eq_other r r' with rfl | rfl
      · simp only [Peers.sent, Function.update_self, List.filterMap_append, List.mem_append] at hm
        rcases hm with hm | hm
        · exact hold r' m hm hid
        · obtain ⟨o, ho, hmessage⟩ := List.mem_filterMap.mp hm
          obtain ⟨task, call, rfl, rfl⟩ := End.mem_seals ho
          cases call with
          | sendToPeer serviceId payload =>
              cases hmessage
              exact hact hid
          | broadcastToPeers serviceId payload =>
              cases hmessage
              exact absurd hid hact
          | _ => cases hmessage
      · simp only [Peers.sent, Function.update_of_ne r.other_ne] at hm
        exact hold r.other m hm hid
  | @handle r nowMs ty p e effects hl he heffects =>
      refine ⟨fun r' m hm hid => ?_, fun r' k τ o hk ho => ?_⟩
      · rcases Role.eq_or_eq_other r r' with rfl | rfl
        · simp only [Peers.sent, Function.update_self, List.filterMap_append, List.mem_append] at hm
          rcases hm with hm | hm
          · exact hold r' m hm hid
          · obtain ⟨o, ho, hmessage⟩ := List.mem_filterMap.mp hm
            obtain ⟨effect, -, heffect⟩ := List.mem_filterMap.mp ho
            cases effect <;> cases heffect
            cases hmessage
        · simp only [Peers.sent, Function.update_of_ne r.other_ne] at hm
          exact hold r.other m hm hid
      · rcases Role.eq_or_eq_other r r' with rfl | rfl
        · simp only [Function.update_self] at hk
          exact h.outcomes r' k τ o (Hub.outcome_of_deliver hk ho) ho
        · simp only [Function.update_of_ne r.other_ne] at hk
          exact h.outcomes r.other k τ o hk ho
  | recv => exact ⟨hold, h.outcomes⟩
  | @use r act services hu =>
      refine ⟨hold, fun r' k τ o hk ho => ?_⟩
      rcases Role.eq_or_eq_other r r' with rfl | rfl
      · simp only [Function.update_self] at hk
        have hstep : Hub.services.step Hub.use (peer r'.other) (s.services r') (.inl act) = some services := hu
        rcases Hub.step_rpc hstep with heq | ⟨act', hact', -, hfinish⟩
        · rw [heq] at hk
          exact h.outcomes r' k τ o hk ho
        · rcases RpcService.outcome_of_step hact' hk ho with hk₀ | ⟨rfl, hk₀, -⟩
          · exact h.outcomes r' k τ o hk₀ ho
          · cases hfinish _ _ rfl
            have houtcome := hact _ hk₀
            exact houtcome
      · simp only [Function.update_of_ne r.other_ne] at hk
        exact h.outcomes r.other k τ o hk ho

end Peers

end OmniMesh.Sdk
