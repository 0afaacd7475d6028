import Mathlib.Data.List.Basic
import Mathlib.Data.List.TakeDrop

/-!
# Broadcast channels that forget

Every receiver gets every value that is sent after its subscription, as long as it keeps up: the channel
holds the last `capacity` values, and a receiver that has fallen further behind is told how many it has
missed and goes on with the oldest value that is left. A receiver is named by its place among the
subscriptions.
-/

structure Broadcast (α : Type*) where
  capacity : ℕ
  /-- How many values were sent. -/
  tail : ℕ
  /-- The last of them. -/
  window : List α
  /-- The number of the value that the receiver reads next; `none` for one that was dropped. -/
  receivers : List (Option ℕ)
  sized : window.length = min tail capacity

namespace Broadcast

variable {α : Type*} {ch : Broadcast α} {a : α} {r next : ℕ} {sent unread : List α}

inductive Received (α : Type*)
  | item (a : α)
  | lagged (missed : ℕ)

/-- The least power of two that is not below `n`. -/
def slots (n : ℕ) : ℕ := if n ≤ 1 then 1 else 1 <<< ((n - 1).log2 + 1)

def new (capacity : ℕ) : Broadcast α := ⟨slots capacity, 0, [], [], by simp⟩

def subscribe (self : Broadcast α) : Broadcast α :=
  { self with receivers := self.receivers ++ [some self.tail] }

/-- Without a receiver nothing is sent. -/
def send (self : Broadcast α) (a : α) : Broadcast α :=
  if self.receivers.any Option.isSome then
    { self with
      tail := self.tail + 1
      window := (self.window ++ [a]).drop (self.window.length + 1 - self.capacity)
      sized := by have := self.sized; simp; omega }
  else self

/-- `none` while there is nothing to read. -/
def recv (self : Broadcast α) (r : ℕ) : Option (Received α × Broadcast α) :=
  match self.receivers[r]? with
  | some (some next) =>
      if next + self.capacity < self.tail then
        some (.lagged (self.tail - self.capacity - next),
          { self with receivers := self.receivers.set r (some (self.tail - self.capacity)) })
      else
        (self.window[next + self.window.length - self.tail]?).map fun a =>
          (.item a, { self with receivers := self.receivers.set r (some (next + 1)) })
  | _ => none

def drop (self : Broadcast α) (r : ℕ) : Broadcast α :=
  { self with receivers := self.receivers.set r none }

/-- These values were sent since the first subscription. -/
structure Logs (ch : Broadcast α) (sent : List α) : Prop where
  tail : ch.tail = sent.length
  window : ch.window = sent.drop (sent.length - ch.capacity)

/-- The receiver has not read these values yet. -/
def Waits (ch : Broadcast α) (r : ℕ) (unread : List α) : Prop :=
  ∃ sent next, ch.Logs sent ∧ ch.receivers[r]? = some (some next) ∧ next ≤ sent.length ∧ unread = sent.drop next

theorem new_logs (capacity : ℕ) : (new capacity : Broadcast α).Logs [] := ⟨rfl, by simp [new]⟩

theorem Logs.snoc (h : ch.Logs sent) (hany : ch.receivers.any Option.isSome) : (ch.send a).Logs (sent ++ [a]) := by
  rw [Broadcast.send, if_pos hany]
  refine ⟨by simp [h.tail], ?_⟩
  simp only [h.window, List.length_drop, List.length_append, List.length_singleton]
  rw [← List.drop_append_of_le_length (by omega), List.drop_drop]
  congr 1
  omega

theorem Logs.send (h : ch.Logs sent) (a : α) : ∃ sent', (ch.send a).Logs sent' := by
  by_cases hany : ch.receivers.any Option.isSome
  · exact ⟨_, h.snoc hany⟩
  · exact ⟨sent, by rwa [Broadcast.send, if_neg hany]⟩

@[simp] theorem send_capacity (a : α) : (ch.send a).capacity = ch.capacity := by
  unfold send
  split <;> rfl

@[simp] theorem send_receivers (a : α) : (ch.send a).receivers = ch.receivers := by
  unfold send
  split <;> rfl

/-- What a `recv` leaves as it was. -/
theorem recv_keeps {x : Received α} {ch' : Broadcast α} (h : ch.recv r = some (x, ch')) :
    ch'.capacity = ch.capacity ∧ (∀ sent, ch.Logs sent → ch'.Logs sent) ∧
      ∃ next, ch'.receivers = ch.receivers.set r (some next) := by
  unfold recv at h
  split at h
  · split at h
    · cases h
      exact ⟨rfl, fun _ hlog => ⟨hlog.tail, hlog.window⟩, _, rfl⟩
    · obtain ⟨a, -, ha⟩ := Option.map_eq_some_iff.mp h
      cases ha
      exact ⟨rfl, fun _ hlog => ⟨hlog.tail, hlog.window⟩, _, rfl⟩
  · cases h

/-! ## What one receiver sees -/

theorem Logs.waits_subscribe (h : ch.Logs sent) : ch.subscribe.Waits ch.receivers.length [] :=
  ⟨sent, sent.length, ⟨h.tail, h.window⟩, by simp [subscribe, h.tail], Nat.le_refl _, by simp⟩

theorem Waits.subscribe (h : ch.Waits r unread) : ch.subscribe.Waits r unread := by
  obtain ⟨sent, next, hlog, hr, hle, rfl⟩ := h
  refine ⟨sent, next, ⟨hlog.tail, hlog.window⟩, ?_, hle, rfl⟩
  simp only [Broadcast.subscribe]
  rw [List.getElem?_append_left (List.getElem?_eq_some_iff.mp hr).1]
  exact hr

theorem Waits.send (h : ch.Waits r unread) (a : α) : (ch.send a).Waits r (unread ++ [a]) := by
  obtain ⟨sent, next, hlog, hr, hle, rfl⟩ := h
  have hany : ch.receivers.any Option.isSome := List.any_eq_true.mpr ⟨_, List.mem_of_getElem? hr, rfl⟩
  refine ⟨sent ++ [a], next, hlog.snoc hany, by rw [send_receivers, hr], ?_, ?_⟩
  · rw [List.length_append]
    omega
  · rw [List.drop_append_of_le_length hle]

theorem Waits.of_ne {r' : ℕ} {x : Option ℕ} {ch' : Broadcast α} (h : ch.Waits r unread) (hne : r' ≠ r)
    (hlogs : ∀ sent, ch.Logs sent → ch'.Logs sent) (hset : ch'.receivers = ch.receivers.set r' x) :
    ch'.Waits r unread := by
  obtain ⟨sent, next, hlog, hr, hle, rfl⟩ := h
  exact ⟨sent, next, hlogs sent hlog, by rw [hset, List.getElem?_set_ne hne, hr], hle, rfl⟩

theorem Waits.drop {r' : ℕ} (h : ch.Waits r unread) (hne : r' ≠ r) : (ch.drop r').Waits r unread :=
  h.of_ne hne (fun _ hlog => ⟨hlog.tail, hlog.window⟩) rfl

theorem Waits.recv_other {r' : ℕ} {x : Received α} {ch' : Broadcast α} (h : ch.Waits r unread) (hne : r' ≠ r)
    (hr : ch.recv r' = some (x, ch')) : ch'.Waits r unread := by
  obtain ⟨-, hlogs, next, hset⟩ := recv_keeps hr
  exact h.of_ne hne hlogs hset

theorem Waits.recv_nil (h : ch.Waits r []) : ch.recv r = none := by
  obtain ⟨sent, next, hlog, hr, hle, hunread⟩ := h
  have hlen : sent.length ≤ next := List.drop_eq_nil_iff.mp hunread.symm
  have hnot : ¬ next + ch.capacity < ch.tail := by rw [hlog.tail]; omega
  have hout : ch.window[next + ch.window.length - ch.tail]? = none := by
    rw [List.getElem?_eq_none_iff, hlog.tail]
    omega
  simp [recv, hr, hnot, hout]

theorem Waits.recv_item (h : ch.Waits r (a :: unread)) (hlen : unread.length < ch.capacity) :
    ∃ ch', ch.recv r = some (.item a, ch') ∧ ch'.Waits r unread := by
  obtain ⟨sent, next, hlog, hr, hle, hunread⟩ := h
  have hcount := congrArg List.length hunread
  simp only [List.length_cons, List.length_drop] at hcount
  have hnot : ¬ next + ch.capacity < ch.tail := by rw [hlog.tail]; omega
  have hget : ch.window[next + ch.window.length - ch.tail]? = some a := by
    have hindex : sent.length - ch.capacity + (next + ch.window.length - ch.tail) = next := by
      rw [hlog.window, hlog.tail, List.length_drop]
      omega
    rw [hlog.window, List.getElem?_drop, ← hlog.window, hindex, ← Nat.add_zero next, ← List.getElem?_drop,
      ← hunread]
    rfl
  refine ⟨{ ch with receivers := ch.receivers.set r (some (next + 1)) }, by simp [recv, hr, hnot, hget], sent,
    next + 1, ⟨hlog.tail, hlog.window⟩, ?_, by omega, ?_⟩
  · exact List.getElem?_set_self (List.getElem?_eq_some_iff.mp hr).1
  · rw [← List.drop_drop, ← hunread, List.drop_one, List.tail_cons]

theorem Waits.recv_lagged (h : ch.Waits r unread) (hlen : ch.capacity < unread.length) :
    ∃ ch', ch.recv r = some (.lagged (unread.length - ch.capacity), ch') ∧
      ch'.Waits r (unread.drop (unread.length - ch.capacity)) := by
  obtain ⟨sent, next, hlog, hr, hle, rfl⟩ := h
  rw [List.length_drop] at hlen ⊢
  have hbehind : next + ch.capacity < ch.tail := by rw [hlog.tail]; omega
  have hmissed : ch.tail - ch.capacity - next = sent.length - next - ch.capacity := by rw [hlog.tail]; omega
  refine ⟨{ ch with receivers := ch.receivers.set r (some (ch.tail - ch.capacity)) },
    by simp [recv, hr, hbehind, hmissed], sent, ch.tail - ch.capacity, ⟨hlog.tail, hlog.window⟩, ?_, ?_, ?_⟩
  · exact List.getElem?_set_self (List.getElem?_eq_some_iff.mp hr).1
  · rw [hlog.tail]
    omega
  · rw [List.drop_drop, hlog.tail]
    congr 1
    omega

/-- What a receiver that has not read these values is told next. -/
def told (capacity : ℕ) : List α → Option (Received α)
  | [] => none
  | a :: rest =>
      if rest.length < capacity then some (.item a) else some (.lagged (rest.length + 1 - capacity))

theorem Waits.recv_result (h : ch.Waits r unread) : (ch.recv r).map Prod.fst = told ch.capacity unread := by
  cases unread with
  | nil => simp [told, h.recv_nil]
  | cons a rest =>
      by_cases hlen : rest.length < ch.capacity
      · obtain ⟨ch', hr, -⟩ := h.recv_item hlen
        simp [told, hr, hlen]
      · obtain ⟨ch', hr, -⟩ := h.recv_lagged (by rw [List.length_cons]; omega)
        simp [told, hr, hlen]

/-! ## What a receiver was told -/

/-- The results tell what became of each value: it was returned, it was missed, or it is unread. -/
def Replays : List (Received α) → List α → List α → Prop
  | [], values, unread => values = unread
  | .item a :: results, values, unread => ∃ rest, values = a :: rest ∧ Replays results rest unread
  | .lagged n :: results, values, unread => n ≤ values.length ∧ Replays results (values.drop n) unread

variable {results : List (Received α)} {values : List α}

theorem Replays.send (h : Replays results values unread) : Replays results (values ++ [a]) (unread ++ [a]) := by
  induction results generalizing values with
  | nil => exact congrArg (· ++ [a]) h
  | cons x results ih =>
      cases x with
      | item b =>
          obtain ⟨rest, rfl, hrest⟩ := h
          exact ⟨rest ++ [a], rfl, ih hrest⟩
      | lagged n =>
          obtain ⟨hn, hrest⟩ := h
          refine ⟨by rw [List.length_append]; omega, ?_⟩
          rw [List.drop_append_of_le_length hn]
          exact ih hrest

theorem Replays.item (h : Replays results values (a :: unread)) : Replays (results ++ [.item a]) values unread := by
  induction results generalizing values with
  | nil => exact ⟨unread, h, rfl⟩
  | cons x results ih =>
      cases x with
      | item b =>
          obtain ⟨rest, rfl, hrest⟩ := h
          exact ⟨rest, rfl, ih hrest⟩
      | lagged n => exact ⟨h.1, ih h.2⟩

theorem Replays.lagged {n : ℕ} (h : Replays results values unread) (hn : n ≤ unread.length) :
    Replays (results ++ [.lagged n]) values (unread.drop n) := by
  induction results generalizing values with
  | nil =>
      cases h
      exact ⟨hn, rfl⟩
  | cons x results ih =>
      cases x with
      | item b =>
          obtain ⟨rest, rfl, hrest⟩ := h
          exact ⟨rest, rfl, ih hrest⟩
      | lagged m => exact ⟨h.1, ih h.2⟩

end Broadcast
