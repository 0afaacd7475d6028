import Mathlib.Data.List.Basic

/-!
# First in, first out

A fifo is the abstract purpose of a channel: the items put in at one end come out at the other end in
the same order, none twice and none in between left out. The order is a field of the structure, so a
fifo that has delivered anything else cannot be built.
-/

structure Fifo (α : Type*) where
  sent : List α
  got : List α
  inOrder : got <+: sent

namespace Fifo

variable {α : Type*}

def empty : Fifo α := ⟨[], [], List.prefix_refl _⟩

def send (f : Fifo α) (a : α) : Fifo α :=
  ⟨f.sent ++ [a], f.got, f.inOrder.trans (List.prefix_append _ _)⟩

def next (f : Fifo α) : Option α := f.sent[f.got.length]?

theorem got_snoc_prefix {f : Fifo α} {a : α} (h : f.next = some a) : f.got ++ [a] <+: f.sent := by
  obtain ⟨rest, hrest⟩ := f.inOrder
  rw [next, ← hrest, List.getElem?_append_right (Nat.le_refl _), Nat.sub_self] at h
  cases rest with
  | nil => simp at h
  | cons b rest =>
      simp only [List.getElem?_cons_zero, Option.some.injEq] at h
      subst h
      exact ⟨rest, by rw [← hrest]; simp⟩

def deliver (f : Fifo α) (a : α) (h : f.next = some a) : Fifo α :=
  ⟨f.sent, f.got ++ [a], got_snoc_prefix h⟩

end Fifo
