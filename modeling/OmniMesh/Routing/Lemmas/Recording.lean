import OmniMesh.Routing.Lemmas.Router
import OmniMesh.Routing.Recording

/-!
# The own links of a router
-/

namespace OmniMesh.Routing
open OmniMesh.Core

namespace Router

variable {r : Router} {u : LinkStateUpdate} {peer p : PeerId}

/-- An update is dropped as old, or writes its link. -/
theorem process_cases (r : Router) (u : LinkStateUpdate) :
    (u.sequence ≤ (r.gossipSequences.lookup (u.source, u.destination)).getD 0 ∧
      (r.processLinkStateUpdate u).2.graph = r.graph) ∨
    (¬ u.sequence ≤ (r.gossipSequences.lookup (u.source, u.destination)).getD 0 ∧
      (r.processLinkStateUpdate u).2.graph = r.graph.addLink u.source u.destination u.metrics) := by
  simp only [processLinkStateUpdate]
  split
  · rename_i hold
    exact .inl ⟨hold, rfl⟩
  · rename_i hnew
    exact .inr ⟨hnew, rfl⟩

@[simp] theorem process_localPeerId : (r.processLinkStateUpdate u).2.localPeerId = r.localPeerId := by
  simp only [processLinkStateUpdate]
  split <;> rfl

@[simp] theorem process_localTrackers :
    (r.processLinkStateUpdate u).2.localTrackers = r.localTrackers := by
  simp only [processLinkStateUpdate]
  split <;> rfl

@[simp] theorem process_sequenceGenerator :
    (r.processLinkStateUpdate u).2.sequenceGenerator = r.sequenceGenerator := by
  simp only [processLinkStateUpdate]
  split <;> rfl

theorem updateGraphLink_eq {tracker} (h : r.localTrackers.lookup peer = some tracker) :
    r.updateGraphLink peer =
      { r with graph := r.graph.addLink r.localPeerId peer tracker.metrics } := by
  simp [updateGraphLink, h]

end Router

namespace Recording

variable {s t : Recording} {peer : PeerId} {act : RecordAct}

/-- A `record_*` call that nothing interrupts is the two steps. -/
theorem record_eq (m : Measurement) :
    Lts.run step s [.track peer m, .publish peer] =
      some { s with router := s.router.record peer m.record } := by
  simp [Lts.run, step, Router.record]

/-- Where no call is under way, the own link is what the tracker measures. -/
structure Coherent (s : Recording) : Prop where
  link : ∀ peer, peer ∉ s.pending →
    s.router.graph.getLink s.router.localPeerId peer = s.measured peer
  tracked : ∀ peer ∈ s.pending, ∃ tracker, s.router.localTrackers.lookup peer = some tracker

theorem init_coherent (localPeerId : PeerId) : Coherent (init localPeerId) where
  link _ _ := rfl
  tracked _ h := by cases h

theorem Coherent.track {trackers} (h : Coherent s)
    (hpeer : ∃ tracker, trackers = s.router.localTrackers.insert peer tracker) :
    Coherent ⟨{ s.router with localTrackers := trackers }, peer :: s.pending⟩ := by
  obtain ⟨tracker, rfl⟩ := hpeer
  refine ⟨fun p hp => ?_, fun p hp => ?_⟩
  · obtain ⟨hne, hp⟩ := not_or.mp (mt List.mem_cons.mpr hp)
    simpa [measured, AList.lookup_insert_ne hne] using h.link p hp
  · by_cases hne : p = peer
    · subst hne
      exact ⟨tracker, AList.lookup_insert _⟩
    · simp only [AList.lookup_insert_ne hne]
      exact h.tracked p ((List.mem_cons.mp hp).resolve_left hne)

theorem Coherent.publish (h : Coherent s) (hpeer : peer ∈ s.pending) :
    Coherent ⟨s.router.updateGraphLink peer, s.pending.erase peer⟩ := by
  obtain ⟨tracker, ht⟩ := h.tracked peer hpeer
  rw [Router.updateGraphLink_eq ht]
  refine ⟨fun p hp => ?_, fun p hp => h.tracked p (List.mem_of_mem_erase hp)⟩
  by_cases hne : p = peer
  · subst hne
    simp [measured, ht]
  · have hp' : p ∉ s.pending := fun hm => hp ((List.mem_erase_of_ne hne).mpr hm)
    simpa [measured, hne] using h.link p hp'

theorem Coherent.gossip {update} (h : Coherent s) (hu : s.Harmless (.gossip update)) :
    Coherent { s with router := (s.router.processLinkStateUpdate update).2 } := by
  refine ⟨fun p hp => ?_, fun p hp => ?_⟩
  · simp only [measured, Router.process_localPeerId, Router.process_localTrackers]
    rcases Router.process_cases s.router update with ⟨-, hg⟩ | ⟨hnew, hg⟩
    · rw [hg]
      exact h.link p hp
    · rw [hg, RouteGraph.getLink_addLink]
      split
      · rename_i heq
        obtain ⟨hs, rfl⟩ := heq
        rcases hu hs.symm with hold | hsame | hpending
        · exact absurd hold hnew
        · exact hsame.symm
        · exact absurd hpending hp
      · exact h.link p hp
  · simpa using h.tracked p hp

theorem Coherent.step (h : Coherent s) (hu : s.Harmless act) (hs : s.step act = some t) : Coherent t := by
  cases act with
  | track peer m =>
      cases hs
      exact h.track ⟨_, rfl⟩
  | publish peer =>
      simp only [Recording.step] at hs
      split at hs
      · rename_i hpeer
        cases hs
        exact h.publish hpeer
      · cases hs
  | gossip update =>
      cases hs
      exact h.gossip hu

theorem run_coherent {localPeerId : PeerId} {acts : List RecordAct}
    (hm : Lts.Meets step Harmless (init localPeerId) acts)
    (hr : Lts.run step (init localPeerId) acts = some s) : Coherent s :=
  Lts.Meets.invariant (fun _ _ _ h hu hs => h.step hu hs) (init_coherent localPeerId) hm hr

theorem step_localPeerId (hs : s.step act = some t) : t.router.localPeerId = s.router.localPeerId := by
  cases act with
  | track peer m =>
      cases hs
      rfl
  | publish peer =>
      simp only [Recording.step] at hs
      split at hs
      · cases hs
        simp only [Router.updateGraphLink]
        split <;> rfl
      · cases hs
  | gossip update =>
      cases hs
      simp

theorem run_localPeerId {localPeerId : PeerId} {acts : List RecordAct}
    (hr : Lts.run step (init localPeerId) acts = some s) : s.router.localPeerId = localPeerId :=
  Lts.run_invariant (I := fun s => s.router.localPeerId = localPeerId)
    (fun _ _ _ h hs => (step_localPeerId hs).trans h) rfl hr

theorem Coherent.mirrored (h : Coherent s) : s.Mirrored := by
  intro hnil peer
  apply h.link
  simp [hnil]

/-- An update that is not harmless overwrites what the tracker measures. -/
theorem not_mirrored (hnil : s.pending = []) (hu : ¬ s.Harmless act) (hs : s.step act = some t) :
    ¬ t.Mirrored := by
  cases act with
  | track peer m => exact absurd trivial hu
  | publish peer => exact absurd trivial hu
  | gossip update =>
      cases hs
      simp only [Harmless, Classical.not_imp, not_or] at hu
      obtain ⟨hsource, hnew, hother, -⟩ := hu
      intro hm
      have hlink := hm hnil update.destination
      rcases Router.process_cases s.router update with ⟨hold, -⟩ | ⟨-, hg⟩
      · exact hnew hold
      · simp only [hg, Router.process_localPeerId, RouteGraph.getLink_addLink, hsource, true_and,
          if_true] at hlink
        apply hother
        simpa [measured] using hlink.symm

end Recording

end OmniMesh.Routing
