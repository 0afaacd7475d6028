import OmniMesh.Service.Lemmas.Rpc
import OmniMesh.Service.Network

/-!
# From an answer back to its call

A response that fills a channel was sent by a handler task, which a request started, which a call sent;
since numbers are not used twice, that call is the one whose channel was filled.
-/

namespace OmniMesh.Service
open OmniMesh.Core

namespace RpcService

variable {s t : RpcService} {act : RpcAct} {i k : ℕ}

/-! ## What a step keeps -/

/-- Calls keep what they ask and the response they returned; tasks keep their invocation and outcome. -/
structure Extends (s t : RpcService) : Prop where
  calls : ∀ (i : ℕ) (c : RpcCall), s.calls[i]? = some c → ∃ c', t.calls[i]? = some c' ∧
    c'.request = c.request ∧ ∀ payload, c.progress = .answered payload → c'.progress = .answered payload
  tasks : ∀ (k : ℕ) (τ : RpcTask), s.tasks[k]? = some τ → ∃ τ', t.tasks[k]? = some τ' ∧
    τ'.invocation = τ.invocation ∧ ∀ o, τ.outcome = some o → τ'.outcome = some o

theorem Extends.refl : Extends s s :=
  ⟨fun _ c hc => ⟨c, hc, rfl, fun _ h => h⟩, fun _ τ hτ => ⟨τ, hτ, rfl, fun _ h => h⟩⟩

/-- A step that moves a call without an answer leaves those with one alone. -/
theorem answered_of_moved {j c moved new payload} (hi : s.calls[i]? = some moved)
    (hnot : ∀ payload, moved.progress ≠ .answered payload) (hc : s.calls[j]? = some c)
    (hp : c.progress = .answered payload) : (if i = j then new else c.progress) = .answered payload := by
  have hij : i ≠ j := by
    rintro rfl
    cases hi.symm.trans hc
    exact hnot payload hp
  rw [if_neg hij, hp]

theorem step_extends (hs : s.step act = some t) : Extends s t := by
  cases step_moves hs with
  | reserve _ _ =>
      exact ⟨fun _ c hc => ⟨c, Table.getElem?_concat_of_some hc, rfl, fun _ h => h⟩, Extends.refl.tasks⟩
  | @register i request channel hi =>
      refine ⟨fun j c hc => ?_, Extends.refl.tasks⟩
      rw [getElem?_register, hc]
      exact ⟨_, rfl, rfl, fun payload hp => answered_of_moved hi (by simp) hc hp⟩
  | @advance _ i request channel old new hi hold _ _ =>
      refine ⟨fun j c hc => ?_, Extends.refl.tasks⟩
      rw [getElem?_advance, hc]
      have hnot : ∀ payload, old ≠ .answered payload := by
        rcases hold with rfl | rfl
        · simp
        · simp
      exact ⟨_, rfl, rfl, fun payload hp => answered_of_moved hi hnot hc hp⟩
  | ignore => exact .refl
  | spawn _ =>
      exact ⟨Extends.refl.calls, fun k τ hτ => ⟨τ, Table.getElem?_concat_of_some hτ, rfl, fun _ h => h⟩⟩
  | answer _ _ =>
      refine ⟨fun j c hc => ?_, Extends.refl.tasks⟩
      simp only [getElem?_fill, hc]
      exact ⟨_, rfl, rfl, fun _ hp => hp⟩
  | @finish k invocation outcome hk _ =>
      refine ⟨Extends.refl.calls, fun j τ hτ => ?_⟩
      by_cases hkj : k = j
      · subst hkj
        rw [hk] at hτ
        cases hτ
        exact ⟨⟨invocation, some outcome⟩, by simp [(List.getElem?_eq_some_iff.mp hk).1], rfl, nofun⟩
      · exact ⟨τ, by simpa [hkj] using hτ, rfl, fun _ h => h⟩

/-! ## What a step adds -/

theorem call_of_step {c' : RpcCall} (hs : s.step act = some t) (hi : t.calls[i]? = some c') :
    (∃ c, s.calls[i]? = some c ∧ c'.request = c.request) ∨
      (i = s.calls.length ∧ c'.request.requestId = s.nextRequestId ∧
        RpcMessage.codec.Fits c'.request.message) := by
  cases step_moves hs with
  | reserve hm hp =>
      rcases Table.getElem?_concat_some hi with hi | ⟨rfl, rfl⟩
      · exact .inl ⟨c', hi, rfl⟩
      · exact .inr ⟨rfl, rfl, RpcRequest.message_fits hm hp⟩
  | register _ =>
      rw [getElem?_register] at hi
      obtain ⟨c, hc, rfl⟩ := Option.map_eq_some_iff.mp hi
      exact .inl ⟨c, hc, rfl⟩
  | advance _ _ _ _ =>
      rw [getElem?_advance] at hi
      obtain ⟨c, hc, rfl⟩ := Option.map_eq_some_iff.mp hi
      exact .inl ⟨c, hc, rfl⟩
  | answer _ _ =>
      simp only [getElem?_fill] at hi
      obtain ⟨c, hc, rfl⟩ := Option.map_eq_some_iff.mp hi
      exact .inl ⟨c, hc, rfl⟩
  | ignore => exact .inl ⟨c', hi, rfl⟩
  | spawn _ => exact .inl ⟨c', hi, rfl⟩
  | finish _ _ => exact .inl ⟨c', hi, rfl⟩

theorem task_of_step {τ' : RpcTask} (hs : s.step act = some t) (hk : t.tasks[k]? = some τ') :
    (∃ τ, s.tasks[k]? = some τ ∧ τ'.invocation = τ.invocation) ∨
      ∃ bytes, act = .deliver τ'.invocation.message τ'.invocation.sender bytes ∧
        RpcMessage.codec.deserialize bytes =
          .ok (.request τ'.invocation.requestId τ'.invocation.method τ'.invocation.payload) := by
  cases step_moves hs with
  | @spawn n sender bytes id method payload hd =>
      rcases Table.getElem?_concat_some hk with hk | ⟨-, rfl⟩
      · exact .inl ⟨τ', hk, rfl⟩
      · exact .inr ⟨bytes, rfl, hd⟩
  | @finish j invocation outcome hj _ =>
      rcases Table.getElem?_set_some hk with ⟨rfl, rfl⟩ | ⟨-, hk⟩
      · exact .inl ⟨_, hj, rfl⟩
      · exact .inl ⟨τ', hk, rfl⟩
  | reserve _ _ => exact .inl ⟨τ', hk, rfl⟩
  | register _ => exact .inl ⟨τ', hk, rfl⟩
  | advance _ _ _ _ => exact .inl ⟨τ', hk, rfl⟩
  | answer _ _ => exact .inl ⟨τ', hk, rfl⟩
  | ignore => exact .inl ⟨τ', hk, rfl⟩

theorem finish_eq {invocation : RpcInvocation} {old : Option (Result Bytes)} {outcome : Result Bytes}
    (hk : s.tasks[k]? = some ⟨invocation, old⟩) (hs : s.step (.finish k outcome) = some t) :
    old = none ∧ payloadSize (outcomePayload outcome) < 2 ^ 64 ∧
      t.tasks[k]? = some ⟨invocation, some outcome⟩ := by
  cases old with
  | some o =>
      simp only [step, hk] at hs
      cases hs
  | none =>
      simp only [step, hk] at hs
      split at hs
      · rename_i hsize
        cases hs
        exact ⟨rfl, hsize, Table.getElem?_set_of_some hk⟩
      · cases hs

/-- Calls are numbered from 1 on in the order in which they start. -/
structure Numbered (s : RpcService) : Prop where
  next : s.nextRequestId = UInt64.ofNat (s.calls.length + 1)
  calls : ∀ (i : ℕ) (c : RpcCall), s.calls[i]? = some c →
    c.request.requestId = UInt64.ofNat (i + 1) ∧ RpcMessage.codec.Fits c.request.message

theorem new_numbered : Numbered new := ⟨rfl, fun _ _ h => by cases h⟩

theorem register_length {id : UInt64} : (s.register i id).calls.length = s.calls.length := by
  simp only [register]
  split <;> simp

theorem Numbered.step (h : Numbered s) (hs : s.step act = some t) : Numbered t := by
  refine ⟨?_, fun i c' hi => ?_⟩
  · cases step_moves hs with
    | reserve _ _ => simp [h.next, UInt64.ofNat_add]
    | register _ =>
        rw [register_length]
        exact h.next
    | advance _ _ _ _ => simpa [advance] using h.next
    | answer _ _ => simpa using h.next
    | ignore => exact h.next
    | spawn _ => exact h.next
    | finish _ _ => exact h.next
  · rcases call_of_step hs hi with ⟨c, hc, hreq⟩ | ⟨rfl, hid, hfits⟩
    · rw [hreq]
      exact h.calls i c hc
    · exact ⟨hid.trans h.next, hfits⟩

/-- Fewer than 2^64 calls have different numbers. -/
theorem Numbered.unique {j : ℕ} {c d : RpcCall} (h : Numbered s) (hlen : s.calls.length < 2 ^ 64)
    (hi : s.calls[i]? = some c) (hj : s.calls[j]? = some d)
    (hid : c.request.requestId = d.request.requestId) : i = j := by
  have hlt : ∀ {k : ℕ} {e : RpcCall}, s.calls[k]? = some e → k + 1 < 2 ^ 64 := by
    intro k e hk
    have := (List.getElem?_eq_some_iff.mp hk).1
    omega
  rw [(h.calls i c hi).1, (h.calls j d hj).1] at hid
  have hnat := congrArg UInt64.toNat hid
  rw [UInt64.toNat_ofNat_of_lt' (hlt hi), UInt64.toNat_ofNat_of_lt' (hlt hj)] at hnat
  omega

end RpcService

namespace RpcNetwork

variable {s t : RpcNetwork} {act : NetworkAct} {e : Envelope} {a : PeerId}

/-- What sent a message. -/
inductive Justified (s : RpcNetwork) : Envelope → Prop
  | call {a i c} : (s.nodes a).calls[i]? = some c →
      Justified s ⟨a, c.request.target, RpcMessage.codec.serialize c.request.message, .call i⟩
  | task {b k τ o} : (s.nodes b).tasks[k]? = some τ → τ.outcome = some o →
      RpcMessage.codec.Fits (τ.invocation.response o) →
      Justified s ⟨b, τ.invocation.sender, RpcMessage.codec.serialize (τ.invocation.response o), .task k⟩

/-! ## Steps -/

/-- What a step can do, one rule for each action. -/
inductive Moves (s : RpcNetwork) : NetworkAct → RpcNetwork → Prop
  | own {node own service} : own.isOwn → (s.nodes node).step own = some service →
      Moves s (.own node own) { s with nodes := Function.update s.nodes node service }
  | transmit {node i request channel} :
      (s.nodes node).calls[i]? = some ⟨request, channel, .sending⟩ →
      Moves s (.transmit node i)
        { s with
          sent := s.sent ++
            [⟨node, request.target, RpcMessage.codec.serialize request.message, .call i⟩] }
  | deliver {n e} : s.sent[n]? = some e →
      Moves s (.deliver n)
        { s with
          nodes := Function.update s.nodes e.receiver
            ((s.nodes e.receiver).handleMessage n e.sender e.payload).2 }
  | finish {node k outcome invocation old service} :
      (s.nodes node).tasks[k]? = some ⟨invocation, old⟩ →
      (s.nodes node).step (.finish k outcome) = some service →
      Moves s (.finish node k outcome) ⟨Function.update s.nodes node service, s.sent ++
        [⟨node, invocation.sender, RpcMessage.codec.serialize (invocation.response outcome), .task k⟩]⟩

theorem step_moves (hs : s.step act = some t) : s.Moves act t := by
  cases act with
  | own node own =>
      simp only [step] at hs
      split at hs
      · rename_i hown
        obtain ⟨service, hservice, rfl⟩ := Option.map_eq_some_iff.mp hs
        exact .own hown hservice
      · cases hs
  | transmit node i =>
      simp only [step] at hs
      split at hs
      · rename_i request channel hi
        cases hs
        exact .transmit hi
      · cases hs
  | deliver n =>
      simp only [step] at hs
      split at hs
      · rename_i e he
        cases hs
        exact .deliver he
      · cases hs
  | finish node k outcome =>
      simp only [step] at hs
      split at hs
      · rename_i invocation old service hk hservice
        cases hs
        exact .finish hk hservice
      · cases hs

/-- A node stays or takes a step of its service; what is delivered to it was sent to it. -/
theorem node_of_step (hs : s.step act = some t) (a : PeerId) : t.nodes a = s.nodes a ∨
    ∃ own, (s.nodes a).step own = some (t.nodes a) ∧ ∀ n sender bytes, own = .deliver n sender bytes →
      ∃ e, s.sent[n]? = some e ∧ e.sender = sender ∧ e.receiver = a ∧ e.payload = bytes := by
  cases step_moves hs with
  | @own node own service hown hservice =>
      by_cases ha : a = node
      · subst ha
        refine .inr ⟨own, by simpa using hservice, fun n sender bytes he => ?_⟩
        subst he
        cases hown
      · exact .inl (Function.update_of_ne ha ..)
  | transmit => exact .inl rfl
  | @deliver n e he =>
      by_cases ha : a = e.receiver
      · subst ha
        refine .inr ⟨.deliver n e.sender e.payload, ?_, fun n' sender bytes h => ?_⟩
        · simp [RpcService.step]
        · cases h
          exact ⟨e, he, rfl, rfl, rfl⟩
      · exact .inl (Function.update_of_ne ha ..)
  | @finish node k outcome _ _ _ _ hservice =>
      by_cases ha : a = node
      · subst ha
        exact .inr ⟨.finish k outcome, by simpa using hservice, by simp⟩
      · exact .inl (Function.update_of_ne ha ..)

/-- A step hands over at most one message, of a call or of a task that has its outcome. -/
theorem sent_of_step (hs : s.step act = some t) :
    t.sent = s.sent ∨ ∃ e, t.sent = s.sent ++ [e] ∧ t.Justified e := by
  cases step_moves hs with
  | own => exact .inl rfl
  | deliver => exact .inl rfl
  | @transmit _ _ request channel hi =>
      exact .inr ⟨_, rfl, .call (c := ⟨request, channel, .sending⟩) hi⟩
  | @finish _ _ outcome invocation _ _ hk hservice =>
      obtain ⟨rfl, hsize, htask⟩ := RpcService.finish_eq hk hservice
      exact .inr ⟨_, rfl, .task (τ := ⟨invocation, some outcome⟩) (by simpa using htask) rfl
        (response_fits hsize)⟩

/-- Nodes keep what their services keep, and no message is taken back. -/
structure Extends (s t : RpcNetwork) : Prop where
  nodes : ∀ a, (s.nodes a).Extends (t.nodes a)
  sent : ∀ (n : ℕ) (e : Envelope), s.sent[n]? = some e → t.sent[n]? = some e

theorem step_extends (hs : s.step act = some t) : Extends s t := by
  refine ⟨fun a => ?_, fun n e hn => ?_⟩
  · rcases node_of_step hs a with he | ⟨own, hown, -⟩
    · rw [he]
      exact .refl
    · exact RpcService.step_extends hown
  · rcases sent_of_step hs with he | ⟨e', he, -⟩
    · rw [he]
      exact hn
    · rw [he]
      exact Table.getElem?_concat_of_some hn

theorem Justified.mono (h : Extends s t) (he : s.Justified e) : t.Justified e := by
  cases he with
  | @call a i c hi =>
      obtain ⟨c', hi', hreq, -⟩ := (h.nodes a).calls i c hi
      rw [← hreq]
      exact .call hi'
  | @task b k τ o hk ho hfits =>
      obtain ⟨τ', hk', hinv, houtcome⟩ := (h.nodes b).tasks k τ hk
      rw [← hinv]
      exact .task hk' (houtcome o ho) (hinv ▸ hfits)

/-! ## Messages say what they were sent for -/

/-- A request is the one of a call to its receiver. -/
theorem Justified.request {id : UInt64} {method : String} {payload : Bytes} (h : s.Justified e)
    (hnum : ∀ a, (s.nodes a).Numbered)
    (hd : RpcMessage.codec.deserialize e.payload = .ok (.request id method payload)) :
    ∃ i c, e.origin = .call i ∧ (s.nodes e.sender).calls[i]? = some c ∧
      c.request = ⟨e.receiver, id, method, payload⟩ := by
  cases h with
  | @call a i c hi =>
      rw [Codec.deserialize_serialize ((hnum a).calls i c hi).2] at hd
      cases hd
      exact ⟨i, c, rfl, hi, rfl⟩
  | task _ _ hfits =>
      rw [Codec.deserialize_serialize hfits] at hd
      cases hd

/-- A response is the one of a handler task to the peer that asked. -/
theorem Justified.response {id : UInt64} {payload : Except String Bytes} (h : s.Justified e)
    (hnum : ∀ a, (s.nodes a).Numbered)
    (hd : RpcMessage.codec.deserialize e.payload = .ok (.response id payload)) :
    ∃ k τ o, e.origin = .task k ∧ (s.nodes e.sender).tasks[k]? = some τ ∧ τ.outcome = some o ∧
      τ.invocation.sender = e.receiver ∧ τ.invocation.requestId = id ∧ outcomePayload o = payload := by
  cases h with
  | @call a i c hi =>
      rw [Codec.deserialize_serialize ((hnum a).calls i c hi).2] at hd
      cases hd
  | @task b k τ o hk ho hfits =>
      rw [Codec.deserialize_serialize hfits] at hd
      cases hd
      exact ⟨k, τ, o, rfl, hk, ho, rfl, rfl, rfl⟩

/-! ## Every run -/

/-- Tasks are traced to the requests, and answers to the responses, that caused them. -/
structure Traced (s : RpcNetwork) : Prop where
  wf : ∀ a, (s.nodes a).Wf
  numbered : ∀ a, (s.nodes a).Numbered
  sent : ∀ (n : ℕ) (e : Envelope), s.sent[n]? = some e → s.Justified e
  tasks : ∀ (b : PeerId) (k : ℕ) (τ : RpcTask), (s.nodes b).tasks[k]? = some τ →
    ∃ e, s.sent[τ.invocation.message]? = some e ∧ e.sender = τ.invocation.sender ∧ e.receiver = b ∧
      RpcMessage.codec.deserialize e.payload =
        .ok (.request τ.invocation.requestId τ.invocation.method τ.invocation.payload)
  answers : ∀ (a : PeerId) (i : ℕ) (c : RpcCall) (n : ℕ) (sender : PeerId)
    (payload : Except String Bytes), (s.nodes a).calls[i]? = some c →
    c.channel = .filled n sender payload →
    ∃ e, s.sent[n]? = some e ∧ e.sender = sender ∧ e.receiver = a ∧
      RpcMessage.codec.deserialize e.payload = .ok (.response c.request.requestId payload)

theorem new_traced : Traced new where
  wf _ := RpcService.new_wf
  numbered _ := RpcService.new_numbered
  sent _ _ h := by cases h
  tasks _ _ _ h := by cases h
  answers _ _ _ _ _ _ h := by cases h

theorem Traced.step (h : Traced s) (hs : s.step act = some t) : Traced t := by
  have hext := step_extends hs
  refine ⟨fun a => ?_, fun a => ?_, fun n e hn => ?_, fun b k τ hk => ?_, fun a i c n p ρ hi hc => ?_⟩
  · rcases node_of_step hs a with he | ⟨own, hown, -⟩
    · rw [he]
      exact h.wf a
    · exact (h.wf a).step hown
  · rcases node_of_step hs a with he | ⟨own, hown, -⟩
    · rw [he]
      exact h.numbered a
    · exact (h.numbered a).step hown
  · rcases sent_of_step hs with he | ⟨e', he, hjust⟩
    · rw [he] at hn
      exact (h.sent n e hn).mono hext
    · rw [he] at hn
      rcases Table.getElem?_concat_some hn with hn | ⟨-, rfl⟩
      · exact (h.sent n e hn).mono hext
      · exact hjust
  · rcases node_of_step hs b with he | ⟨own, hown, hdeliver⟩
    · rw [he] at hk
      obtain ⟨e, hn, hrest⟩ := h.tasks b k τ hk
      exact ⟨e, hext.sent _ e hn, hrest⟩
    · rcases RpcService.task_of_step hown hk with ⟨τ₀, hk₀, hinv⟩ | ⟨bytes, rfl, hd⟩
      · obtain ⟨e, hn, hrest⟩ := h.tasks b k τ₀ hk₀
        rw [hinv]
        exact ⟨e, hext.sent _ e hn, hrest⟩
      · obtain ⟨e, hn, hsender, hreceiver, rfl⟩ := hdeliver _ _ _ rfl
        exact ⟨e, hext.sent _ e hn, hsender, hreceiver, hd⟩
  · rcases node_of_step hs a with he | ⟨own, hown, hdeliver⟩
    · rw [he] at hi
      obtain ⟨e, hn, hrest⟩ := h.answers a i c n p ρ hi hc
      exact ⟨e, hext.sent _ e hn, hrest⟩
    · rcases (h.wf a).filled_step hown hi hc with ⟨c₀, hi₀, hc₀, hreq⟩ | ⟨bytes, rfl, hd⟩
      · obtain ⟨e, hn, hrest⟩ := h.answers a i c₀ n p ρ hi₀ hc₀
        rw [← hreq]
        exact ⟨e, hext.sent _ e hn, hrest⟩
      · obtain ⟨e, hn, hsender, hreceiver, rfl⟩ := hdeliver _ _ _ rfl
        exact ⟨e, hext.sent _ e hn, hsender, hreceiver, hd⟩

theorem run_traced {acts : List NetworkAct} (hr : Lts.run step new acts = some s) : Traced s :=
  Lts.run_invariant (fun _ _ _ h hs => h.step hs) new_traced hr

/-- An answered call has the outcome of a task at its target that its own request started. -/
theorem Traced.answered {i : ℕ} {c : RpcCall} {payload : Except String Bytes} (h : Traced s)
    (hlen : (s.nodes a).calls.length < 2 ^ 64) (hi : (s.nodes a).calls[i]? = some c)
    (hp : c.progress = .answered payload) :
    ∃ (n k : ℕ) (τ : RpcTask) (o : Result Bytes) (request response : Envelope),
      c.channel = .filled n c.request.target payload ∧
      s.sent[n]? = some response ∧ response.origin = .task k ∧ response.sender = c.request.target ∧
      (s.nodes c.request.target).tasks[k]? = some τ ∧ τ.outcome = some o ∧ outcomePayload o = payload ∧
      τ.invocation.sender = a ∧ τ.invocation.method = c.request.method ∧
      τ.invocation.payload = c.request.payload ∧
      s.sent[τ.invocation.message]? = some request ∧ request.sender = a ∧ request.origin = .call i := by
  obtain ⟨n, sender, hc⟩ := ((h.wf a).calls i c hi).answered payload hp
  obtain ⟨e, hn, rfl, rfl, hd⟩ := h.answers a i c n sender payload hi hc
  obtain ⟨k, τ, o, horigin, hk, ho, hsender, hid, hpayload⟩ := (h.sent n e hn).response h.numbered hd
  obtain ⟨e', hn', hsender', hreceiver', hd'⟩ := h.tasks e.sender k τ hk
  obtain ⟨j, d, horigin', hj, hreq⟩ := (h.sent _ e' hn').request h.numbered hd'
  rw [hsender', hsender] at hj
  have hij : i = j := by
    refine (h.numbered _).unique hlen hi hj ?_
    rw [hreq]
    exact hid.symm
  subst hij
  rw [hi] at hj
  cases hj
  rw [hreq, hreceiver']
  exact ⟨n, k, τ, o, e', e, hc, hn, horigin, rfl, hk, ho, hpayload, hsender, rfl, rfl, hn',
    hsender'.trans hsender, horigin'⟩

end RpcNetwork

end OmniMesh.Service
