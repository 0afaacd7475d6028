import Mathlib.Data.List.Induction
import OmniMesh.Lib.Latest
import OmniMesh.Routing.Lemmas.Router

/-!
# Gossip

For each link the stored sequence and the graph's metrics are one register that keeps the latest
version.
-/

namespace OmniMesh.Routing.Router
open OmniMesh.Core

variable {r : Router} {u : LinkStateUpdate} {s d : PeerId}

/-- The stored sequence of a link and its metrics in the graph. -/
def held (r : Router) (s d : PeerId) : ℕ × Option LinkMetrics :=
  (((r.gossipSequences.lookup (s, d)).getD 0).toNat, r.graph.getLink s d)

theorem held_new (localPeerId s d : PeerId) : (new localPeerId).held s d = Latest.empty := rfl

theorem held_process_self : (r.processLinkStateUpdate u).2.held u.source u.destination =
    Latest.offer (r.held u.source u.destination) (u.sequence.toNat, u.metrics) := by
  simp only [processLinkStateUpdate]
  split
  · rename_i hle
    rw [Latest.offer_of_le (UInt64.le_iff_toNat_le.mp hle)]
    simp [held]
  · rename_i hle
    rw [Latest.offer_of_lt (UInt64.lt_iff_toNat_lt.mp (UInt64.not_le.mp hle))]
    simp [held]

theorem held_process_of_ne (h : ¬ (s = u.source ∧ d = u.destination)) :
    (r.processLinkStateUpdate u).2.held s d = r.held s d := by
  have hkey : (s, d) ≠ (u.source, u.destination) := fun he => h (Prod.ext_iff.mp he)
  simp only [processLinkStateUpdate]
  split
  · simp [held, AList.lookup_insert_ne hkey]
  · simp [held, AList.lookup_insert_ne hkey, h]

theorem process_fst : (r.processLinkStateUpdate u).1 = true ↔
    (r.held u.source u.destination).1 < u.sequence.toNat := by
  simp only [processLinkStateUpdate]
  split
  · rename_i hle
    simpa [held] using UInt64.le_iff_toNat_le.mp hle
  · rename_i hle
    simpa [held] using UInt64.lt_iff_toNat_lt.mp (UInt64.not_le.mp hle)

theorem held_process_le : (r.held s d).1 ≤ ((r.processLinkStateUpdate u).2.held s d).1 := by
  by_cases h : s = u.source ∧ d = u.destination
  · obtain ⟨rfl, rfl⟩ := h
    rw [held_process_self]
    exact Latest.le_offer
  · rw [held_process_of_ne h]

/-- The version and the value that an update offers for a link. -/
def Offers (updates : LinkStateUpdate → Prop) (s d : PeerId) (p : ℕ × LinkMetrics) : Prop :=
  ∃ u, updates u ∧ u.source = s ∧ u.destination = d ∧ (u.sequence.toNat, u.metrics) = p

theorem processAll_append {us vs : List LinkStateUpdate} :
    r.processAll (us ++ vs) = (r.processAll us).processAll vs :=
  List.foldl_append

/-- One more update is one more offer for its link. -/
theorem holds_process {us : List LinkStateUpdate} (h : Latest.Holds (Offers (· ∈ us) s d) (r.held s d))
    (u : LinkStateUpdate) :
    Latest.Holds (Offers (· ∈ us ++ [u]) s d) ((r.processLinkStateUpdate u).2.held s d) := by
  by_cases hlink : s = u.source ∧ d = u.destination
  · obtain ⟨rfl, rfl⟩ := hlink
    rw [held_process_self]
    refine h.offer.congr fun p => ?_
    simp only [Offers, List.mem_append, List.mem_singleton]
    constructor
    · rintro (⟨v, hv, hp⟩ | rfl)
      · exact ⟨v, .inl hv, hp⟩
      · exact ⟨u, .inr rfl, rfl, rfl, rfl⟩
    · rintro ⟨v, hv | rfl, hs, hd, rfl⟩
      · exact .inl ⟨v, hv, hs, hd, rfl⟩
      · exact .inr rfl
  · rw [held_process_of_ne hlink]
    refine h.congr fun p => ?_
    simp only [Offers, List.mem_append, List.mem_singleton]
    constructor
    · rintro ⟨v, hv, hp⟩
      exact ⟨v, .inl hv, hp⟩
    · rintro ⟨v, hv | rfl, hs, hd, hp⟩
      · exact ⟨v, hv, hs, hd, hp⟩
      · exact absurd ⟨hs.symm, hd.symm⟩ hlink

theorem held_processAll (localPeerId : PeerId) (us : List LinkStateUpdate) (s d : PeerId) :
    Latest.Holds (Offers (· ∈ us) s d) (((new localPeerId).processAll us).held s d) := by
  induction us using List.reverseRecOn with
  | nil =>
      refine Latest.holds_empty.congr fun p => ?_
      simp [Offers]
  | append_singleton us u ih =>
      rw [processAll_append]
      exact holds_process ih u

/-! ## What a router has learned -/

section
variable {localPeerId : PeerId} {us vs : List LinkStateUpdate} {m : LinkMetrics}

theorem one_le_sequence : 1 ≤ u.sequence ↔ ⊥ < u.sequence.toNat := by
  simp [UInt64.le_iff_toNat_le, Nat.lt_iff_add_one_le]

theorem isSome_getLink_processAll : (((new localPeerId).processAll us).graph.getLink s d).isSome ↔
    ∃ u ∈ us, u.source = s ∧ u.destination = d ∧ 1 ≤ u.sequence := by
  refine (held_processAll localPeerId us s d).isSome_iff.trans ?_
  simp only [one_le_sequence]
  constructor
  · rintro ⟨p, ⟨u, hu, hs, hd, rfl⟩, hpos⟩
    exact ⟨u, hu, hs, hd, hpos⟩
  · rintro ⟨u, hu, hs, hd, hpos⟩
    exact ⟨_, ⟨u, hu, hs, hd, rfl⟩, hpos⟩

/-- Updates with the same link and sequence carry the same metrics. -/
def Consistent (updates : LinkStateUpdate → Prop) : Prop :=
  ∀ u v, updates u → updates v → u.source = v.source → u.destination = v.destination →
    u.sequence = v.sequence → u.metrics = v.metrics

theorem Consistent.one_value (h : Consistent (· ∈ us)) {b m m'}
    (hm : Offers (· ∈ us) s d (b, m)) (hm' : Offers (· ∈ us) s d (b, m')) : m = m' := by
  obtain ⟨u, hu, rfl, rfl, hp⟩ := hm
  obtain ⟨v, hv, hs, hd, hp'⟩ := hm'
  obtain ⟨hseq, rfl⟩ := Prod.ext_iff.mp hp
  obtain ⟨hseq', rfl⟩ := Prod.ext_iff.mp hp'
  exact h u v hu hv hs.symm hd.symm (UInt64.toNat_inj.mp (hseq.trans hseq'.symm))

theorem getLink_processAll (h : Consistent (· ∈ us)) :
    ((new localPeerId).processAll us).graph.getLink s d = some m ↔
      ∃ u ∈ us, u.source = s ∧ u.destination = d ∧ 1 ≤ u.sequence ∧ u.metrics = m ∧
        ∀ v ∈ us, v.source = s → v.destination = d → v.sequence ≤ u.sequence := by
  refine ((held_processAll localPeerId us s d).value_iff fun _ _ _ => h.one_value).trans ?_
  constructor
  · rintro ⟨b, ⟨u, hu, hs, hd, hp⟩, hpos, hmax⟩
    obtain ⟨rfl, rfl⟩ := Prod.ext_iff.mp hp
    refine ⟨u, hu, hs, hd, one_le_sequence.mpr hpos, rfl, fun v hv hvs hvd => ?_⟩
    exact UInt64.le_iff_toNat_le.mpr (hmax _ ⟨v, hv, hvs, hvd, rfl⟩)
  · rintro ⟨u, hu, hs, hd, hpos, rfl, hmax⟩
    refine ⟨_, ⟨u, hu, hs, hd, rfl⟩, one_le_sequence.mp hpos, ?_⟩
    rintro p ⟨v, hv, hvs, hvd, rfl⟩
    exact UInt64.le_iff_toNat_le.mp (hmax v hv hvs hvd)

/-- A router has applied an update when it was above everything heard before for its link. -/
theorem process_processAll : (((new localPeerId).processAll us).processLinkStateUpdate u).1 = true ↔
    0 < u.sequence ∧ ∀ v ∈ us, v.source = u.source → v.destination = u.destination →
      v.sequence < u.sequence := by
  have h := held_processAll localPeerId us u.source u.destination
  rw [process_fst]
  simp only [UInt64.lt_iff_toNat_lt]
  constructor
  · intro hlt
    refine ⟨bot_le.trans_lt hlt, fun v hv hs hd => ?_⟩
    exact (h.bound _ ⟨v, hv, hs, hd, rfl⟩).trans_lt hlt
  · rintro ⟨hpos, hall⟩
    rcases h.value with he | ⟨m, ⟨v, hv, hs, hd, hp⟩, -, -⟩
    · rw [he]
      exact hpos
    · rw [← (Prod.ext_iff.mp hp).1]
      exact hall v hv hs hd

end

end OmniMesh.Routing.Router
