import OmniMesh.Transport.Lemmas.Streams
import OmniMesh.Transport.Mock

/-!
# One connection of the in-memory transport
-/

namespace OmniMesh.Transport
open OmniMesh.Core

namespace MockLink

variable {link link' : MockLink} {e x : Endpoint} {data : Bytes}

@[simp] theorem drop_drop : (link.drop e).drop e = link.drop e := by
  simp [drop, setHolder, Mpsc.close]

/-- What can happen to a connection, and what is seen of it. -/
inductive Moves (link : MockLink) : Option DuplexAct → MockLink → Prop
  | stay : Moves link none link
  | hold {e : Endpoint} : link.holders e = .transit → Moves link none (link.setHolder e .held)
  | drop {e : Endpoint} : Moves link none (link.drop e)
  | dropBoth : Moves link none link.dropBoth
  | close {e : Endpoint} : Moves link none (link.close e)
  | send {e : Endpoint} {data : Bytes} {channel : Mpsc Bytes} : (link.channels e.other).send data = .sent channel →
      Moves link (some (.send e data)) { link with
        channels := Function.update link.channels e.other channel
        sent := Function.update link.sent e (link.sent e ++ [data]) }
  | recv {e : Endpoint} {data : Bytes} {channel : Mpsc Bytes} {hasSender : Bool} :
      (link.channels e).recv hasSender = .item data channel →
      Moves link (some (.recv e data)) { link with
        channels := Function.update link.channels e channel
        received := Function.update link.received e (link.received e ++ [data]) }

/-- No message is lost or reordered on the way to an end that is not dropped. -/
structure Flows (link : MockLink) : Prop where
  capacity : ∀ e, (link.channels e).capacity = mockCapacity
  receiver : ∀ e, (link.channels e).receiver = true ↔ link.holders e ≠ .dropped
  flow : ∀ e, link.holders e ≠ .dropped →
    link.received e ++ (link.channels e).queue = link.sent e.other
  taken : ∀ e, link.received e ++ (link.channels e).queue <+: link.sent e.other

theorem new_flows (local' addr : SocketAddr) : (new local' addr).Flows where
  capacity _ := rfl
  receiver _ := by simp [new, Mpsc.new]
  flow _ _ := rfl
  taken _ := List.prefix_refl _

theorem Flows.setHolder (h : link.Flows) (hnew : link.holders e = .transit) :
    (link.setHolder e .held).Flows := by
  have hdropped : ∀ x, (link.setHolder e .held).holders x = .dropped ↔ link.holders x = .dropped := by
    intro x
    by_cases hx : x = e
    · subst hx
      simp [MockLink.setHolder, hnew]
    · simp [MockLink.setHolder, hx]
  exact ⟨h.capacity, fun x => by rw [ne_eq, hdropped]; exact h.receiver x,
    fun x hx => h.flow x (by rwa [ne_eq, hdropped] at hx), h.taken⟩

theorem Flows.drop (h : link.Flows) : (link.drop e).Flows := by
  refine ⟨fun x => ?_, fun x => ?_, fun x hx => ?_, fun x => ?_⟩
  · by_cases hx : x = e
    · subst hx
      simpa [MockLink.drop, MockLink.setHolder, Mpsc.close] using h.capacity x
    · simpa [MockLink.drop, MockLink.setHolder, hx] using h.capacity x
  · by_cases hx : x = e
    · subst hx
      simp [MockLink.drop, MockLink.setHolder, Mpsc.close]
    · simpa [MockLink.drop, MockLink.setHolder, hx] using h.receiver x
  · by_cases he : x = e
    · subst he
      simp [MockLink.drop, MockLink.setHolder] at hx
    · simp only [MockLink.drop, MockLink.setHolder, Function.update_of_ne he] at hx ⊢
      exact h.flow x hx
  · by_cases he : x = e
    · subst he
      simpa [MockLink.drop, MockLink.setHolder, Mpsc.close] using
        (List.prefix_append _ _).trans (h.taken x)
    · simpa [MockLink.drop, MockLink.setHolder, he] using h.taken x

theorem Flows.close (h : link.Flows) : (link.close e).Flows := ⟨h.capacity, h.receiver, h.flow, h.taken⟩

theorem Flows.send {channel : Mpsc Bytes} (h : link.Flows)
    (hs : (link.channels e.other).send data = .sent channel) :
    Flows { link with
      channels := Function.update link.channels e.other channel
      sent := Function.update link.sent e (link.sent e ++ [data]) } := by
  obtain ⟨hopen, hopen', hqueue, hcap⟩ := Mpsc.send_sent hs
  have hheld := (h.receiver e.other).mp hopen
  refine ⟨Endpoint.both e ?_ ?_, Endpoint.both e ?_ ?_, Endpoint.both e ?_ ?_, Endpoint.both e ?_ ?_⟩
  · simpa using h.capacity e
  · simpa [hcap] using h.capacity e.other
  · simpa using h.receiver e
  · simpa [hopen'] using hheld
  · simpa using h.flow e
  · have hflow := h.flow e.other hheld
    intro _
    simp only [Endpoint.other_other] at hflow
    simp [hqueue, ← hflow]
  · simpa using h.taken e
  · have hflow := h.flow e.other hheld
    simp only [Endpoint.other_other] at hflow
    simp [hqueue, ← hflow]

theorem Flows.recv {channel : Mpsc Bytes} {hasSender : Bool} (h : link.Flows)
    (hr : (link.channels e).recv hasSender = .item data channel) :
    Flows { link with
        channels := Function.update link.channels e channel
        received := Function.update link.received e (link.received e ++ [data]) } := by
  obtain ⟨hqueue, rfl⟩ := Mpsc.recv_item hr
  refine ⟨Endpoint.both e ?_ ?_, Endpoint.both e ?_ ?_, Endpoint.both e ?_ ?_, Endpoint.both e ?_ ?_⟩
  · simpa [Mpsc.pop] using h.capacity e
  · simpa using h.capacity e.other
  · simpa [Mpsc.pop] using h.receiver e
  · simpa using h.receiver e.other
  · intro hx
    have hflow := h.flow e hx
    rw [hqueue] at hflow
    simpa using hflow
  · simpa using h.flow e.other
  · have htaken := h.taken e
    rw [hqueue] at htaken
    simpa using htaken
  · simpa using h.taken e.other

theorem Moves.flows {seen : Option DuplexAct} (hm : link.Moves seen link') (h : link.Flows) : link'.Flows := by
  cases hm with
  | stay => exact h
  | hold hnew => exact h.setHolder hnew
  | drop => exact h.drop
  | dropBoth => exact h.drop.drop
  | close => exact h.close
  | send hs => exact h.send hs
  | recv hr => exact h.recv hr

theorem Moves.holders {seen : DuplexAct} (hm : link.Moves (some seen) link') : link'.holders = link.holders := by
  cases hm <;> rfl

theorem Moves.addrs {seen : Option DuplexAct} (hm : link.Moves seen link') (e : Endpoint) :
    (link'.conns e).localAddr = (link.conns e).localAddr ∧ (link'.conns e).remoteAddr = (link.conns e).remoteAddr := by
  cases hm with
  | @close x =>
      by_cases hx : e = x
      · subst hx
        simp [MockLink.close]
      · simp [MockLink.close, hx]
  | stay | hold | drop | dropBoth | send | recv => exact ⟨rfl, rfl⟩

theorem send_moves {r : Result Unit × MockLink} (h : link.send e data = some r) :
    (r.1 = .ok () ∧ link.Moves (some (.send e data)) r.2) ∨ ((∃ err, r.1 = .error err) ∧ r.2 = link) := by
  unfold send at h
  split at h
  · cases h
    exact .inr ⟨⟨_, rfl⟩, rfl⟩
  · split at h
    · cases h
      exact .inr ⟨⟨_, rfl⟩, rfl⟩
    · cases h
    · rename_i hs
      cases h
      exact .inl ⟨rfl, .send hs⟩

theorem recv_moves {r : Result (Option Bytes) × MockLink} (h : link.recv e = some r) :
    (∃ data, r.1 = .ok (some data) ∧ link.Moves (some (.recv e data)) r.2) ∨ (r.1 = .ok none ∧ r.2 = link) := by
  unfold recv at h
  split at h
  · cases h
    exact .inr ⟨rfl, rfl⟩
  · split at h
    · cases h
      exact .inr ⟨rfl, rfl⟩
    · cases h
    · rename_i hr
      cases h
      exact .inl ⟨_, rfl, .recv hr⟩

/-- The message that waits for an end, if there is one. -/
theorem Flows.head?_queue (h : link.Flows) (he : link.holders e ≠ .dropped) :
    (link.channels e).queue.head? = (link.sent e.other)[(link.received e).length]? := by
  rw [← h.flow e he, List.getElem?_append_right (Nat.le_refl _), Nat.sub_self, List.head?_eq_getElem?]

theorem Flows.recv_result (h : link.Flows) (he : link.holders e ≠ .dropped) :
    (link.recv e).map Prod.fst = (
      if !(link.conns e).connected then some (.ok none)
      else match (link.sent e.other)[(link.received e).length]? with
        | some data => some (.ok (some data))
        | none => if link.holders e.other = .dropped then some (.ok none) else none) := by
  rw [← h.head?_queue he]
  unfold MockLink.recv Mpsc.recv
  split
  · rfl
  · cases (link.channels e).queue with
    | nil => by_cases hd : link.holders e.other = .dropped <;> simp [hd]
    | cons data rest => rfl

theorem Flows.send_result (h : link.Flows) (data : Bytes) :
    (link.send e data).map Prod.fst = (
      if !(link.conns e).connected then some (.error (.connection "not connected"))
      else if link.holders e.other = .dropped then some (.error (.connection "send channel closed"))
      else if (link.sent e).length = (link.received e.other).length + mockCapacity then none
      else some (.ok ())) := by
  have hopen := h.receiver e.other
  unfold MockLink.send
  split
  · rfl
  · by_cases hd : link.holders e.other = .dropped
    · have hclosed : (link.channels e.other).send data = .closed := by
        rw [Mpsc.send_closed_iff]
        simpa [hd] using hopen
      simp [hclosed, hd]
    · -- the channel is full when as many messages are unread as it has places
      have hlen : (link.channels e.other).queue.length + (link.received e.other).length = (link.sent e).length := by
        have hflow := h.flow e.other hd
        rw [Endpoint.other_other] at hflow
        rw [← hflow, List.length_append, Nat.add_comm]
      have hfull : (link.channels e.other).send data = .full ↔
          (link.sent e).length = (link.received e.other).length + mockCapacity := by
        rw [Mpsc.send_full_iff, h.capacity, hopen]
        simp only [ne_eq, hd, not_false_eq_true, true_and]
        omega
      cases hs : (link.channels e.other).send data with
      | closed =>
          rw [Mpsc.send_closed_iff] at hs
          simp [hs, hd] at hopen
      | full => simp [hd, hfull.mp hs]
      | sent channel =>
          have hroom : ¬ (link.sent e).length = (link.received e.other).length + mockCapacity := by
            rw [← hfull, hs]
            simp
          simp [hd, hroom]

end MockLink

end OmniMesh.Transport
