import OmniMesh.Sdk.Broadcast
import OmniMesh.Sdk.Lemmas.Outgoing

/-!
# A broadcast visits every session once
-/

namespace OmniMesh.Sdk
open OmniMesh.Core OmniMesh.Crypto

namespace Broadcast

variable {K : Role → Cipher} {D : UpdateDecoder} {serviceId : String} {payload : Bytes}
  {s t : Broadcast} {act : BroadcastAct} {peer : PeerId} {conn : ℕ}

/-! ## Steps -/

/-- What a step can do. -/
inductive Moves (K : Role → Cipher) (D : UpdateDecoder) (sender : Sender) (s : Broadcast) :
    Broadcast → Prop
  | skip {peer : PeerId} {todo : List PeerId} : ¬ s.returned → s.todo = peer :: todo →
      s.outgoing.node.sessions.lookup peer = none → Moves K D sender s { s with todo }
  | visit {peer : PeerId} {todo : List PeerId} {conn : ℕ} : s.isIdle → ¬ s.returned → s.todo = peer :: todo →
      s.outgoing.node.sessions.lookup peer = some conn →
      Moves K D sender s { s with
        todo, outgoing := s.outgoing.addSend conn sender, sends := s.sends ++ [s.outgoing.sends.length] }
  | meet {peer : PeerId} : peer ∉ s.met → ¬ s.returned →
      Moves K D sender s { s with todo := peer :: s.todo, met := peer :: s.met }
  | finish : s.isIdle → s.todo = [] → Moves K D sender s { s with returned := true }
  | outgoing {act : OutgoingAct} {outgoing : Outgoing} : s.outgoing.step K D act = some outgoing →
      Moves K D sender s { s with outgoing }

theorem step_moves (hs : s.step K D serviceId payload act = some t) :
    s.Moves K D (.broadcastToPeers serviceId payload) t := by
  cases act with
  | visit =>
      simp only [step] at hs
      split at hs
      · rename_i hidle
        split at hs
        · cases hs
        · rename_i htodo
          split at hs
          · rename_i hl
            cases hs
            exact .skip hidle.2 htodo hl
          · rename_i hl
            cases hs
            exact .visit hidle.1 hidle.2 htodo hl
      · cases hs
  | meet peer =>
      simp only [step] at hs
      split at hs
      · cases hs
      · rename_i hmet
        rw [not_or] at hmet
        cases hs
        exact .meet hmet.1 hmet.2
  | finish =>
      simp only [step] at hs
      split at hs
      · rename_i hidle
        cases hs
        exact .finish hidle.1 hidle.2
      · cases hs
  | outgoing act =>
      obtain ⟨outgoing, hstep, rfl⟩ := Option.map_eq_some_iff.mp hs
      exact .outgoing hstep

/-! ## The sends of the call -/

/-- The sends of the call that go to a session. -/
def onConn (s : Broadcast) (conn : ℕ) : List ℕ :=
  s.sends.filter fun send => s.outgoing.sends[send]?.map Send.conn = some conn

/-- All sends of the call are its own, and all but the last one have returned. -/
structure Orderly (base : ℕ) (sender : Sender) (s : Broadcast) : Prop where
  accounts : s.outgoing.Accounts
  owned : s.outgoing.node.Owned
  sends : ∀ send ∈ s.sends, base ≤ send ∧ ∃ w, s.outgoing.sends[send]? = some w ∧ w.sender = sender
  returned : ∀ send ∈ s.sends.dropLast, hasReturned s.outgoing send
  base_le : base ≤ s.outgoing.sends.length

/-- The entry of the peer is visited once: the send to its session is still to be made, or it is made. -/
structure Visits (peer : PeerId) (conn : ℕ) (s : Broadcast) : Prop where
  past : s.outgoing.node.Past conn
  nodup : s.todo.Nodup
  met : ∀ p ∈ s.todo, p ∈ s.met
  peer_met : peer ∈ s.met
  once : s.outgoing.node.sessions.lookup peer = some conn →
    (peer ∈ s.todo ∧ s.onConn conn = []) ∨ (peer ∉ s.todo ∧ ∃ send, s.onConn conn = [send])
  done : s.returned → s.isIdle ∧ s.todo = []

theorem hasReturned_iff {outgoing : Outgoing} {send : ℕ} : hasReturned outgoing send ↔
    ∃ conn sender result, outgoing.sends[send]? = some ⟨conn, sender, .returned result⟩ := by
  unfold hasReturned
  split
  · simp_all
  · rename_i hno
    simp only [Bool.false_eq_true, false_iff]
    rintro ⟨conn, sender, result, hi⟩
    exact hno conn sender result hi

theorem hasReturned_addSend {outgoing : Outgoing} {send : ℕ} {sender : Sender}
    (h : hasReturned outgoing send) : hasReturned (outgoing.addSend conn sender) send := by
  obtain ⟨conn', sender', result, hi⟩ := hasReturned_iff.mp h
  exact hasReturned_iff.mpr ⟨conn', sender', result, Table.getElem?_concat_of_some hi⟩

theorem hasReturned_step {outgoing outgoing' : Outgoing} {send : ℕ} {act : OutgoingAct}
    (hs : outgoing.step K D act = some outgoing') (h : hasReturned outgoing send) :
    hasReturned outgoing' send := by
  obtain ⟨conn', sender', result, hi⟩ := hasReturned_iff.mp h
  exact hasReturned_iff.mpr ⟨conn', sender', result, Outgoing.returned_of_step hs hi⟩

/-- When the call is idle every send it has made has returned. -/
theorem Orderly.all_returned {base : ℕ} {sender : Sender} (h : Orderly base sender s) (hidle : s.isIdle) :
    ∀ send ∈ s.sends, hasReturned s.outgoing send := by
  intro send hsend
  rcases List.eq_nil_or_concat s.sends with hnil | ⟨init, last, hcons⟩
  · rw [hnil] at hsend
    cases hsend
  · rw [hcons, List.concat_eq_append, List.mem_append, List.mem_singleton] at hsend
    rcases hsend with hinit | rfl
    · apply h.returned
      simpa [hcons] using hinit
    · simpa [isIdle, hcons] using hidle

theorem Orderly.step {base : ℕ} (h : Orderly base (.broadcastToPeers serviceId payload) s)
    (hs : s.step K D serviceId payload act = some t) :
    Orderly base (.broadcastToPeers serviceId payload) t := by
  cases step_moves hs with
  | skip _ _ _ => exact ⟨h.accounts, h.owned, h.sends, h.returned, h.base_le⟩
  | meet _ _ => exact ⟨h.accounts, h.owned, h.sends, h.returned, h.base_le⟩
  | finish _ _ => exact ⟨h.accounts, h.owned, h.sends, h.returned, h.base_le⟩
  | visit hidle _ _ _ =>
      refine ⟨h.accounts.addSend, h.owned, fun send hsend => ?_, fun send hsend => ?_, ?_⟩
      · rcases List.mem_append.mp hsend with hold | hnew
        · obtain ⟨hbase, w, hw, hsender⟩ := h.sends send hold
          exact ⟨hbase, w, Table.getElem?_concat_of_some hw, hsender⟩
        · cases List.mem_singleton.mp hnew
          exact ⟨h.base_le, _, List.getElem?_concat_length, rfl⟩
      · rw [List.dropLast_concat] at hsend
        exact hasReturned_addSend (h.all_returned hidle send hsend)
      · simp only [Outgoing.addSend, List.length_append]
        exact Nat.le_add_right_of_le h.base_le
  | outgoing hstep =>
      refine ⟨h.accounts.step hstep, Outgoing.owned_of_step hstep h.owned, fun send hsend => ?_,
        fun send hsend => hasReturned_step hstep (h.returned send hsend), ?_⟩
      · obtain ⟨hbase, w, hw, hsender⟩ := h.sends send hsend
        obtain ⟨w', hw', -, hsender'⟩ := Outgoing.send_of_step hstep hw
        exact ⟨hbase, w', hw', hsender'.trans hsender⟩
      · exact h.base_le.trans (Outgoing.sends_length_of_step hstep)

section
variable {base : ℕ} {sender : Sender}

theorem Orderly.onConn_outgoing {act : OutgoingAct} {outgoing : Outgoing} (h : Orderly base sender s)
    (hs : s.outgoing.step K D act = some outgoing) (conn : ℕ) :
    onConn { s with outgoing } conn = s.onConn conn := by
  refine List.filter_congr fun send hsend => ?_
  obtain ⟨-, w, hw, -⟩ := h.sends send hsend
  obtain ⟨w', hw', hconn, -⟩ := Outgoing.send_of_step hs hw
  simp [hw, hw', hconn]

theorem Orderly.onConn_addSend {conn' : ℕ} {todo : List PeerId} (h : Orderly base sender s) (conn : ℕ) :
    onConn { s with
      todo, outgoing := s.outgoing.addSend conn' sender
      sends := s.sends ++ [s.outgoing.sends.length] } conn =
    s.onConn conn ++ if conn' = conn then [s.outgoing.sends.length] else [] := by
  simp only [onConn, Outgoing.addSend, List.filter_append]
  congr 1
  · refine List.filter_congr fun send hsend => ?_
    obtain ⟨-, w, hw, -⟩ := h.sends send hsend
    simp [hw, Table.getElem?_concat_of_some hw]
  · by_cases hc : conn' = conn
    · simp [hc]
    · simp [hc]

theorem Visits.skip {p : PeerId} {todo : List PeerId} (h : Visits peer conn s) (hret : ¬ s.returned)
    (htodo : s.todo = p :: todo) (hl : s.outgoing.node.sessions.lookup p = none) :
    Visits peer conn { s with todo } where
  past := h.past
  nodup := (List.nodup_cons.mp (htodo ▸ h.nodup)).2
  met q hq := h.met q (htodo ▸ List.mem_cons_of_mem p hq)
  peer_met := h.peer_met
  once hsession := by
    have hne : peer ≠ p := by
      rintro rfl
      rw [hl] at hsession
      cases hsession
    have honce := h.once hsession
    simp only [htodo, List.mem_cons, hne, false_or] at honce
    exact honce
  done hr := absurd hr hret

theorem Visits.visit {p : PeerId} {todo : List PeerId} {conn' : ℕ} (ho : Orderly base sender s)
    (h : Visits peer conn s) (hret : ¬ s.returned) (htodo : s.todo = p :: todo)
    (hl : s.outgoing.node.sessions.lookup p = some conn') :
    Visits peer conn { s with
      todo, outgoing := s.outgoing.addSend conn' sender
      sends := s.sends ++ [s.outgoing.sends.length] } where
  past := h.past
  nodup := (List.nodup_cons.mp (htodo ▸ h.nodup)).2
  met q hq := h.met q (htodo ▸ List.mem_cons_of_mem p hq)
  peer_met := h.peer_met
  once hsession := by
    have hp : p ∉ todo := (List.nodup_cons.mp (htodo ▸ h.nodup)).1
    have honce := h.once hsession
    rw [htodo] at honce
    rw [ho.onConn_addSend]
    by_cases hpeer : peer = p
    · subst hpeer
      obtain ⟨-, hnone⟩ := honce.resolve_right fun hvisited => hvisited.1 List.mem_cons_self
      have hconn : conn' = conn := Option.some.inj (hl.symm.trans hsession)
      exact .inr ⟨hp, s.outgoing.sends.length, by simp [hnone, hconn]⟩
    · have hconn : conn' ≠ conn := by
        rintro rfl
        exact hpeer (ho.owned.peer p peer conn' hl hsession)
      simpa [hpeer, hconn] using honce
  done hr := absurd hr hret

theorem Visits.step (ho : Orderly base (.broadcastToPeers serviceId payload) s) (h : Visits peer conn s)
    (hs : s.step K D serviceId payload act = some t) : Visits peer conn t := by
  cases step_moves hs with
  | skip hret htodo hl => exact h.skip hret htodo hl
  | visit _ hret htodo hl => exact h.visit ho hret htodo hl
  | @meet p hmet hret =>
      have hnew : p ∉ s.todo := fun hp => hmet (h.met p hp)
      have hne : peer ≠ p := by
        rintro rfl
        exact hmet h.peer_met
      refine ⟨h.past, List.nodup_cons.mpr ⟨hnew, h.nodup⟩, fun q hq => ?_, List.mem_cons_of_mem _ h.peer_met,
        fun hsession => ?_, fun hr => absurd hr hret⟩
      · rcases List.mem_cons.mp hq with rfl | hq
        · exact List.mem_cons_self
        · exact List.mem_cons_of_mem _ (h.met q hq)
      · have honce := h.once hsession
        simp only [List.mem_cons, hne, false_or]
        exact honce
  | finish hidle htodo => exact ⟨h.past, h.nodup, h.met, h.peer_met, h.once, fun _ => ⟨hidle, htodo⟩⟩
  | @outgoing act outgoing hstep =>
      refine ⟨(Outgoing.past_of_step hstep h.past).1, h.nodup, h.met, h.peer_met, fun hsession => ?_,
        fun hr => ⟨?_, (h.done hr).2⟩⟩
      · rw [ho.onConn_outgoing hstep]
        exact h.once ((Outgoing.past_of_step hstep h.past).2 peer hsession)
      · have hidle := (h.done hr).1
        simp only [isIdle, Option.all_eq_true] at hidle ⊢
        exact fun send hsend => hasReturned_step hstep (hidle send hsend)

end

section
variable {outgoing : Outgoing} {order : List PeerId} {acts : List BroadcastAct}

end

end Broadcast

end OmniMesh.Sdk
