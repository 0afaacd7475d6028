import OmniMesh.Sdk.Answering
import OmniMesh.Sdk.Lemmas.Outgoing
import OmniMesh.Service.Lemmas.Network

/-!
# Requests and their responses
-/

namespace OmniMesh.Sdk
open OmniMesh.Core OmniMesh.Crypto OmniMesh.Service

/-! ## The size of a response -/

theorem ServicePayload.length_serialize (serviceId : String) (payload : Bytes) :
    (ServicePayload.codec.serialize ⟨serviceId, payload⟩).length =
      serviceId.utf8ByteSize + payload.length + 16 := by
  simp only [ServicePayload.codec, Codec.serialize_map, Codec.length_serialize_pair,
    Codec.length_serialize_string, Codec.length_serialize_bytes]
  omega

section
variable {s t : RpcService}

theorem tasks_of_own {act : RpcAct} (hown : act.isOwn) (hs : s.step act = some t) :
    t.tasks = s.tasks := by
  cases RpcService.step_moves hs with
  | reserve => rfl
  | register => rfl
  | advance => rfl
  | ignore => rfl
  | spawn => cases hown
  | answer => rfl
  | finish => cases hown

/-- The tasks that a message makes the service spawn. -/
def spawned (message : ℕ) (sender : PeerId) (bytes : Bytes) : List RpcTask :=
  match RpcMessage.codec.deserialize bytes with
  | .ok (.request id method payload) => [⟨⟨message, sender, id, method, payload⟩, none⟩]
  | _ => []

theorem tasks_handleMessage (message : ℕ) (sender : PeerId) (bytes : Bytes) :
    (s.handleMessage message sender bytes).2.tasks = s.tasks ++ spawned message sender bytes := by
  unfold RpcService.handleMessage spawned
  split
  · simp_all
  · simp_all
  · split
    · simp_all
    · simp_all

end

namespace Answering

variable {K : Role → Cipher} {D : UpdateDecoder} {s t : Answering} {act : AnsweringAct}

/-! ## Steps -/

/-- What a step can do. -/
inductive Moves (K : Role → Cipher) (D : UpdateDecoder) (s : Answering) : Answering → Prop
  | call {service} : service.tasks = s.service.tasks → Moves K D s { s with service }
  | deliver {conn peer signal payload service} :
      s.outgoing.node.stages.lookup conn = some (.running peer signal) →
      service.tasks = s.service.tasks ++ spawned s.received.length peer payload →
      Moves K D s { s with service, received := s.received ++ [⟨conn, peer, payload⟩] }
  | finish {k invocation outcome service} : s.service.tasks[k]? = some ⟨invocation, none⟩ →
      service.tasks = s.service.tasks.set k ⟨invocation, some outcome⟩ → Moves K D s { s with service }
  | answer {k invocation outcome conn} : s.service.tasks[k]? = some ⟨invocation, some outcome⟩ →
      s.answers.lookup k = none → s.outgoing.node.sessions.lookup invocation.sender = some conn →
      Moves K D s { s with
        outgoing := s.outgoing.addSend conn (answerSender invocation outcome)
        answers := s.answers.insert k s.outgoing.sends.length }
  | outgoing {act outgoing} : s.outgoing.step K D act = some outgoing → Moves K D s { s with outgoing }

theorem step_moves (hs : s.step K D act = some t) : s.Moves K D t := by
  cases act with
  | call act =>
      simp only [step] at hs
      split at hs
      · rename_i hown
        obtain ⟨service, hservice, rfl⟩ := Option.map_eq_some_iff.mp hs
        exact .call (tasks_of_own hown hservice)
      · cases hs
  | deliver conn payload =>
      simp only [step] at hs
      split at hs
      · rename_i hl
        cases hs
        exact .deliver hl (tasks_handleMessage ..)
      · cases hs
  | finish k outcome =>
      obtain ⟨service, hservice, rfl⟩ := Option.map_eq_some_iff.mp hs
      simp only [RpcService.step] at hservice
      split at hservice
      · rename_i hk
        obtain ⟨-, hset⟩ := Option.ite_none_right_eq_some.mp hservice
        cases hset
        exact .finish hk rfl
      · cases hservice
  | answer k =>
      simp only [step] at hs
      split at hs
      · rename_i hk hnone
        obtain ⟨outgoing, hsend, rfl⟩ := Option.map_eq_some_iff.mp hs
        obtain ⟨conn, hl, rfl⟩ := Option.map_eq_some_iff.mp hsend
        exact .answer hk hnone hl
      · cases hs
  | outgoing act =>
      obtain ⟨outgoing, hstep, rfl⟩ := Option.map_eq_some_iff.mp hs
      exact .outgoing hstep

/-! ## Requests, tasks and answers -/

/-- Each request has one task. The answer of a task goes to the session that brought the request, as long
as that session is in the map. -/
structure Wf (s : Answering) : Prop where
  accounts : s.outgoing.Accounts
  past : ∀ (j : ℕ) (r : Received), s.received[j]? = some r → s.outgoing.node.Past r.conn
  spawned : ∀ (j : ℕ) (r : Received) (id : UInt64) (method : String) (payload : Bytes),
    s.received[j]? = some r →
    RpcMessage.codec.deserialize r.payload = .ok (.request id method payload) →
    ∃ (k : ℕ) (τ : RpcTask), s.service.tasks[k]? = some τ ∧
      τ.invocation = ⟨j, r.sender, id, method, payload⟩
  distinct : (s.service.tasks.map fun τ => τ.invocation.message).Nodup
  origin : ∀ (k : ℕ) (τ : RpcTask), s.service.tasks[k]? = some τ →
    ∃ r, s.received[τ.invocation.message]? = some r ∧ r.sender = τ.invocation.sender
  answers : ∀ k send, s.answers.lookup k = some send →
    ∃ (invocation : RpcInvocation) (outcome : Result Bytes) (w : Send),
      s.service.tasks[k]? = some ⟨invocation, some outcome⟩ ∧ s.outgoing.sends[send]? = some w ∧
      w.sender = answerSender invocation outcome ∧
      ∀ r, s.received[invocation.message]? = some r →
        s.outgoing.node.sessions.lookup r.sender = some r.conn → w.conn = r.conn

theorem init_wf (transports : ℕ → NoiseTransport) : Wf (init transports) where
  accounts := Outgoing.init_accounts transports
  past _ _ hj := by cases hj
  spawned _ _ _ _ _ hj := by cases hj
  distinct := List.nodup_nil
  origin _ _ hk := by cases hk
  answers _ _ hl := by cases hl

theorem Wf.call {service : RpcService} (h : Wf s) (htasks : service.tasks = s.service.tasks) :
    Wf { s with service } where
  accounts := h.accounts
  past := h.past
  spawned := by
    rw [htasks]
    exact h.spawned
  distinct := by
    rw [htasks]
    exact h.distinct
  origin := by
    rw [htasks]
    exact h.origin
  answers := by
    rw [htasks]
    exact h.answers

theorem mem_spawned {message : ℕ} {sender : PeerId} {bytes : Bytes} {τ : RpcTask}
    (h : τ ∈ spawned message sender bytes) :
    τ.invocation.message = message ∧ τ.invocation.sender = sender := by
  unfold OmniMesh.Sdk.spawned at h
  split at h
  · cases List.mem_singleton.mp h
    exact ⟨rfl, rfl⟩
  · cases h

theorem nodup_spawned {message : ℕ} {sender : PeerId} {bytes : Bytes} :
    ((spawned message sender bytes).map fun τ => τ.invocation.message).Nodup := by
  unfold OmniMesh.Sdk.spawned
  split
  · exact List.nodup_singleton _
  · exact List.nodup_nil

theorem Wf.deliver {conn : ℕ} {peer : PeerId} {signal : Bool} {payload : Bytes} {service : RpcService}
    (h : Wf s) (hl : s.outgoing.node.stages.lookup conn = some (.running peer signal))
    (htasks : service.tasks = s.service.tasks ++ OmniMesh.Sdk.spawned s.received.length peer payload) :
    Wf { s with service, received := s.received ++ [⟨conn, peer, payload⟩] } where
  accounts := h.accounts
  past j r hj := by
    rcases Table.getElem?_concat_some hj with hj | ⟨-, rfl⟩
    · exact h.past j r hj
    · exact ⟨_, hl, .inl trivial⟩
  spawned j r id method payload' hj hd := by
    simp only [htasks]
    rcases Table.getElem?_concat_some hj with hj | ⟨rfl, rfl⟩
    · obtain ⟨k, τ, hk, hτ⟩ := h.spawned j r id method payload' hj hd
      exact ⟨k, τ, by rw [List.getElem?_append_left (List.getElem?_eq_some_iff.mp hk).1, hk], hτ⟩
    · simp only at hd
      refine ⟨s.service.tasks.length, ⟨⟨_, peer, id, method, payload'⟩, none⟩, ?_, rfl⟩
      simp only [OmniMesh.Sdk.spawned, hd]
      exact List.getElem?_concat_length
  distinct := by
    simp only [htasks, List.map_append, List.nodup_append]
    refine ⟨h.distinct, nodup_spawned, ?_⟩
    intro m hm m' hm'
    obtain ⟨τ, hτ, rfl⟩ := List.mem_map.mp hm
    obtain ⟨τ', hτ', rfl⟩ := List.mem_map.mp hm'
    obtain ⟨k, hk⟩ := List.mem_iff_getElem?.mp hτ
    obtain ⟨r, hr, -⟩ := h.origin k τ hk
    have hlt := (List.getElem?_eq_some_iff.mp hr).1
    rw [(mem_spawned hτ').1]
    omega
  origin k τ hk := by
    simp only [htasks] at hk
    by_cases hlt : k < s.service.tasks.length
    · rw [List.getElem?_append_left hlt] at hk
      obtain ⟨r, hr, hsender⟩ := h.origin k τ hk
      exact ⟨r, Table.getElem?_concat_of_some hr, hsender⟩
    · rw [List.getElem?_append_right (Nat.not_lt.mp hlt)] at hk
      obtain ⟨hmessage, hsender⟩ := mem_spawned (List.mem_of_getElem? hk)
      rw [hmessage, hsender]
      exact ⟨_, List.getElem?_concat_length, rfl⟩
  answers k send hsend := by
    obtain ⟨invocation, outcome, w, hk, hw, hsender, hconn⟩ := h.answers k send hsend
    obtain ⟨r, hr, -⟩ := h.origin k _ hk
    refine ⟨invocation, outcome, w, ?_, hw, hsender, fun r' hr' => hconn r' ?_⟩
    · simp only [htasks]
      rw [List.getElem?_append_left (List.getElem?_eq_some_iff.mp hk).1, hk]
    · rwa [List.getElem?_append_left (List.getElem?_eq_some_iff.mp hr).1] at hr'

theorem Wf.finish {k : ℕ} {invocation : RpcInvocation} {outcome : Result Bytes} {service : RpcService}
    (h : Wf s) (hk : s.service.tasks[k]? = some ⟨invocation, none⟩)
    (htasks : service.tasks = s.service.tasks.set k ⟨invocation, some outcome⟩) :
    Wf { s with service } := by
  have hlt := (List.getElem?_eq_some_iff.mp hk).1
  have hinvocation : ∀ {j : ℕ} {τ : RpcTask}, service.tasks[j]? = some τ →
      ∃ τ', s.service.tasks[j]? = some τ' ∧ τ'.invocation = τ.invocation := by
    intro j τ hj
    rw [htasks] at hj
    rcases Table.getElem?_set_some hj with ⟨rfl, rfl⟩ | ⟨-, hj⟩
    · exact ⟨_, hk, rfl⟩
    · exact ⟨τ, hj, rfl⟩
  constructor
  · exact h.accounts
  · exact h.past
  · intro j r id method payload hj hd
    obtain ⟨k', τ, hk', hτ⟩ := h.spawned j r id method payload hj hd
    by_cases hkk : k = k'
    · subst hkk
      rw [hk] at hk'
      cases hk'
      exact ⟨k, ⟨invocation, some outcome⟩, by rw [htasks, List.getElem?_set_self hlt], hτ⟩
    · exact ⟨k', τ, by rw [htasks, List.getElem?_set_ne hkk, hk'], hτ⟩
  · have hmap : service.tasks.map (fun τ => τ.invocation.message) =
        s.service.tasks.map fun τ => τ.invocation.message := by
      refine List.ext_getElem? fun j => ?_
      rw [htasks, List.getElem?_map, List.getElem?_map]
      by_cases hkj : k = j
      · subst hkj
        rw [List.getElem?_set_self hlt, hk]
        rfl
      · rw [List.getElem?_set_ne hkj]
    rw [hmap]
    exact h.distinct
  · intro j τ hj
    obtain ⟨τ', hτ', heq⟩ := hinvocation hj
    rw [← heq]
    exact h.origin j τ' hτ'
  · intro k' send hsend
    obtain ⟨invocation', outcome', w, hk', hrest⟩ := h.answers k' send hsend
    have hne : k ≠ k' := by
      rintro rfl
      rw [hk] at hk'
      cases hk'
    exact ⟨invocation', outcome', w, by rw [htasks, List.getElem?_set_ne hne, hk'], hrest⟩

theorem Wf.answer {k conn : ℕ} {invocation : RpcInvocation} {outcome : Result Bytes} (h : Wf s)
    (hk : s.service.tasks[k]? = some ⟨invocation, some outcome⟩)
    (hl : s.outgoing.node.sessions.lookup invocation.sender = some conn) :
    Wf { s with
      outgoing := s.outgoing.addSend conn (answerSender invocation outcome)
      answers := s.answers.insert k s.outgoing.sends.length } where
  accounts := h.accounts.addSend
  past := h.past
  spawned := h.spawned
  distinct := h.distinct
  origin := h.origin
  answers k' send hsend := by
    by_cases hkk : k' = k
    · subst hkk
      rw [AList.lookup_insert] at hsend
      cases hsend
      refine ⟨invocation, outcome, _, hk, List.getElem?_concat_length, rfl, fun r hr hsession => ?_⟩
      obtain ⟨r', hr', hsender⟩ := h.origin k' _ hk
      rw [hr] at hr'
      cases hr'
      rw [hsender] at hsession
      exact Option.some.inj (hl.symm.trans hsession)
    · rw [AList.lookup_insert_ne hkk] at hsend
      obtain ⟨invocation', outcome', w, hk', hw, hrest⟩ := h.answers k' send hsend
      exact ⟨invocation', outcome', w, hk', Table.getElem?_concat_of_some hw, hrest⟩

theorem Wf.outgoing {act : OutgoingAct} {outgoing : Outgoing} (h : Wf s)
    (hstep : s.outgoing.step K D act = some outgoing) : Wf { s with outgoing } where
  accounts := h.accounts.step hstep
  past j r hj := (Outgoing.past_of_step hstep (h.past j r hj)).1
  spawned := h.spawned
  distinct := h.distinct
  origin := h.origin
  answers k send hsend := by
    obtain ⟨invocation, outcome, w, hk, hw, hsender, hconn⟩ := h.answers k send hsend
    obtain ⟨w', hw', hconn', hsender'⟩ := Outgoing.send_of_step hstep hw
    refine ⟨invocation, outcome, w', hk, hw', hsender'.trans hsender, fun r hr hsession => ?_⟩
    rw [hconn']
    exact hconn r hr ((Outgoing.past_of_step hstep (h.past _ r hr)).2 _ hsession)

theorem Wf.step (h : Wf s) (hs : s.step K D act = some t) : Wf t := by
  cases step_moves hs with
  | call htasks => exact h.call htasks
  | deliver hl htasks => exact h.deliver hl htasks
  | finish hk htasks => exact h.finish hk htasks
  | answer hk _ hl => exact h.answer hk hl
  | outgoing hstep => exact h.outgoing hstep

theorem run_wf {transports : ℕ → NoiseTransport} {acts : List AnsweringAct}
    (hr : Lts.run (step K D) (init transports) acts = some s) : Wf s :=
  Lts.run_invariant (I := Wf) (fun _ _ _ h hs => h.step hs) (init_wf transports) hr

/-! ## Answers -/

theorem Wf.unique {j k : ℕ} {τ τ' : RpcTask} (h : Wf s) (hj : s.service.tasks[j]? = some τ)
    (hk : s.service.tasks[k]? = some τ') (hm : τ.invocation.message = τ'.invocation.message) : j = k := by
  obtain ⟨hjlt, rfl⟩ := List.getElem?_eq_some_iff.mp hj
  obtain ⟨hklt, rfl⟩ := List.getElem?_eq_some_iff.mp hk
  have hnodup := h.distinct
  rw [List.nodup_iff_injective_get] at hnodup
  have := @hnodup ⟨j, by simpa using hjlt⟩ ⟨k, by simpa using hklt⟩ (by simpa using hm)
  simpa using this

section
variable {k send : ℕ} {r : Received} {invocation : RpcInvocation} {outcome : Result Bytes}

end

end Answering

end OmniMesh.Sdk
