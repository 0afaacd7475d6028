import Mathlib.Data.List.Basic

/-!
# Bounded channels

A channel has room for `capacity` items and one receiver. A send waits while the channel is full and fails
once the receiver is gone, and the items that the receiver has not taken go with it. Whether a sender is
left is known to whoever holds the senders.
-/

structure Mpsc (α : Type) where
  capacity : ℕ
  receiver : Bool
  queue : List α
  bounded : queue.length ≤ capacity

namespace Mpsc

variable {α : Type} {ch ch' : Mpsc α} {a b : α} {hasSender : Bool}

inductive Sending (α : Type)
  | closed
  | full
  | sent (channel : Mpsc α)

inductive Receiving (α : Type)
  | closed
  | empty
  | item (a : α) (channel : Mpsc α)

def new (capacity : ℕ) : Mpsc α := ⟨capacity, true, [], Nat.zero_le _⟩

def send (self : Mpsc α) (a : α) : Sending α :=
  if self.receiver then
    if h : self.queue.length < self.capacity then
      .sent { self with queue := self.queue ++ [a], bounded := by rw [List.length_append]; exact h }
    else .full
  else .closed

def pop (self : Mpsc α) : Mpsc α :=
  { self with queue := self.queue.tail, bounded := by have := self.bounded; simp; omega }

def recv (self : Mpsc α) (hasSender : Bool) : Receiving α :=
  match self.queue with
  | a :: _ => .item a self.pop
  | [] => if hasSender then .empty else .closed

/-- The receiver is dropped. -/
def close (self : Mpsc α) : Mpsc α := { self with receiver := false, queue := [], bounded := Nat.zero_le _ }

theorem send_sent (h : ch.send a = .sent ch') :
    ch.receiver = true ∧ ch'.receiver = true ∧ ch'.queue = ch.queue ++ [a] ∧ ch'.capacity = ch.capacity := by
  unfold send at h
  split at h
  · rename_i hr
    split at h
    · cases h
      exact ⟨hr, hr, rfl, rfl⟩
    · cases h
  · cases h

theorem send_closed_iff : ch.send a = .closed ↔ ch.receiver = false := by
  unfold send
  split
  · rename_i hr
    split <;> simp [hr]
  · rename_i hr
    simpa using hr

theorem send_full_iff : ch.send a = .full ↔ ch.receiver = true ∧ ch.queue.length = ch.capacity := by
  have hb := ch.bounded
  unfold send
  split
  · rename_i hr
    split
    · simp
      omega
    · simp [hr]
      omega
  · rename_i hr
    simp [hr]

theorem recv_item (h : ch.recv hasSender = .item a ch') : ch.queue = a :: ch'.queue ∧ ch' = ch.pop := by
  unfold recv at h
  split at h
  · rename_i hq
    cases h
    exact ⟨by simp [pop, hq], rfl⟩
  · split at h <;> cases h

theorem recv_closed_iff : ch.recv hasSender = .closed ↔ ch.queue = [] ∧ hasSender = false := by
  unfold recv
  split
  · rename_i hq
    simp [hq]
  · rename_i hq
    cases hasSender <;> simp [hq]

end Mpsc
