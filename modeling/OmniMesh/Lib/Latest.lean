import Mathlib.Order.BoundedOrder.Basic
import Mathlib.Order.Lattice

/-!
# Registers that keep the latest version

A register holds a version and, once anything was accepted, a value. An offer is accepted when its
version is above the one that is held; what the register holds in the end depends only on which
offers were made, not on their order or number.
-/

namespace Latest

variable {β α : Type*} [LinearOrder β]

def offer (r : β × Option α) (p : β × α) : β × Option α := if p.1 ≤ r.1 then r else (p.1, some p.2)

variable {r r' : β × Option α} {p : β × α}

theorem offer_of_le (h : p.1 ≤ r.1) : offer r p = r := if_pos h

theorem offer_of_lt (h : r.1 < p.1) : offer r p = (p.1, some p.2) := if_neg (not_le.mpr h)

theorem le_offer : r.1 ≤ (offer r p).1 := by
  rcases le_or_gt p.1 r.1 with h | h
  · rw [offer_of_le h]
  · rw [offer_of_lt h]
    exact h.le

variable [OrderBot β] {a : α} {offers offers' : β × α → Prop}

def empty : β × Option α := (⊥, none)

/-- The register after these offers. -/
structure Holds (offers : β × α → Prop) (r : β × Option α) : Prop where
  bound : ∀ p, offers p → p.1 ≤ r.1
  value : r = empty ∨ ∃ a, offers (r.1, a) ∧ ⊥ < r.1 ∧ r.2 = some a

theorem holds_empty : Holds (fun _ => False) (empty : β × Option α) := ⟨nofun, .inl rfl⟩

theorem Holds.offer (h : Holds offers r) : Holds (fun q => offers q ∨ q = p) (offer r p) where
  bound q hq := by
    rcases hq with hq | rfl
    · exact (h.bound q hq).trans le_offer
    · rcases le_or_gt q.1 r.1 with hle | hlt
      · exact hle.trans le_offer
      · rw [offer_of_lt hlt]
  value := by
    rcases le_or_gt p.1 r.1 with hle | hlt
    · rw [offer_of_le hle]
      exact h.value.imp id fun ⟨a, ha, hpos, hr⟩ => ⟨a, .inl ha, hpos, hr⟩
    · rw [offer_of_lt hlt]
      exact .inr ⟨p.2, .inr rfl, bot_le.trans_lt hlt, rfl⟩

theorem Holds.congr (h : Holds offers r) (he : ∀ p, offers p ↔ offers' p) : Holds offers' r where
  bound p hp := h.bound p ((he p).mpr hp)
  value := h.value.imp id fun ⟨a, ha, hpos, hr⟩ => ⟨a, (he _).mp ha, hpos, hr⟩

/-- When a version has one value, the register holds the value of the greatest version. -/
theorem Holds.value_iff (h : Holds offers r)
    (hone : ∀ b a a', offers (b, a) → offers (b, a') → a = a') :
    r.2 = some a ↔ ∃ b, offers (b, a) ∧ ⊥ < b ∧ ∀ p, offers p → p.1 ≤ b := by
  constructor
  · intro ha
    rcases h.value with rfl | ⟨a', ha', hpos, hr⟩
    · cases ha
    · rw [ha] at hr
      cases hr
      exact ⟨r.1, ha', hpos, h.bound⟩
  · rintro ⟨b, hb, hpos, hmax⟩
    have hle : b ≤ r.1 := h.bound _ hb
    rcases h.value with rfl | ⟨a', ha', -, hr⟩
    · exact absurd (hpos.trans_le hle) (lt_irrefl _)
    · have heq : r.1 = b := le_antisymm (hmax _ ha') hle
      rw [heq] at ha'
      rw [hr, hone b a' a ha' hb]

theorem Holds.isSome_iff (h : Holds offers r) : r.2.isSome ↔ ∃ p, offers p ∧ ⊥ < p.1 := by
  constructor
  · intro hs
    rcases h.value with rfl | ⟨a, ha, hpos, -⟩
    · cases hs
    · exact ⟨_, ha, hpos⟩
  · rintro ⟨p, hp, hpos⟩
    rcases h.value with rfl | ⟨a, -, -, hr⟩
    · exact absurd (hpos.trans_le (h.bound p hp)) (lt_irrefl _)
    · rw [hr]
      rfl

end Latest
