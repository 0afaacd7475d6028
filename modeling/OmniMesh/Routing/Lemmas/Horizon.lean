import OmniMesh.Routing.Horizon
import OmniMesh.Routing.Lemmas.Forward
import OmniMesh.Routing.Lemmas.LinkState

/-!
# Which links a node knows
-/

namespace OmniMesh.Routing
open OmniMesh.Core LabelSearch

variable {T : Topology} {s t : LinkStateMesh} {act : LinkStateAct} {u v x target : PeerId} {m : LinkMetrics}

namespace LinkStateMesh

/-- What a node has measured and told others is about its session peers, at a positive cost. -/
structure Measured (T : Topology) (s : LinkStateMesh) : Prop where
  trackers : ∀ u v tracker, (s.routers u).localTrackers.lookup v = some tracker →
    v ∈ T.sessions u ∧ tracker.Positive
  generated : ∀ u, ∀ update ∈ s.generated u, update.destination ∈ T.sessions u ∧ 0 < update.metrics.cost

theorem init_measured : Measured T init where
  trackers _ _ _ h := by cases h
  generated _ _ h := by cases h

theorem Measured.tracker (h : Measured T s) (u v : PeerId) : ((s.routers u).tracker v).Positive := by
  unfold Router.tracker
  cases hl : (s.routers u).localTrackers.lookup v with
  | none => exact LinkMetricTracker.Positive.default
  | some tracker => exact (h.trackers u v tracker hl).2

theorem Measured.step (h : Measured T s) (hm : s.Measuring T act) (hs : s.step T act = some t) : Measured T t := by
  cases step_moves hs with
  | @record node peer measurement =>
      refine ⟨fun u v tracker hl => ?_, h.generated⟩
      by_cases hu : u = node
      · subst hu
        simp only [setRouter, Function.update_self, Router.record_eq] at hl
        by_cases hv : v = peer
        · subst hv
          rw [AList.lookup_insert] at hl
          cases hl
          exact ⟨hm.1, (h.tracker u v).record hm.2⟩
        · rw [AList.lookup_insert_ne hv] at hl
          exact h.trackers u v tracker hl
      · simp only [setRouter, Function.update_of_ne hu] at hl
        exact h.trackers u v tracker hl
  | tick | skip => exact ⟨h.trackers, h.generated⟩
  | @gossip node peer rest timestamp tracker htodo hl =>
      refine ⟨fun u v tracker' hl' => ?_, fun u update hupdate => ?_⟩
      · by_cases hu : u = node
        · subst hu
          simp only [Function.update_self] at hl'
          exact h.trackers u v tracker' hl'
        · simp only [Function.update_of_ne hu] at hl'
          exact h.trackers u v tracker' hl'
      · obtain hold | ⟨rfl, rfl⟩ := Table.mem_update_concat.mp hupdate
        · exact h.generated u update hold
        · obtain ⟨hpeer, hpos⟩ := h.trackers u peer tracker hl
          exact ⟨hpeer, hpos.cost_pos⟩
  | @deliver packet receiver update hp =>
      refine ⟨fun u v tracker hl => ?_, h.generated⟩
      by_cases hu : u = receiver
      · subst hu
        simp only [setRouter, Function.update_self, Router.process_localTrackers] at hl
        exact h.trackers u v tracker hl
      · simp only [setRouter, Function.update_of_ne hu] at hl
        exact h.trackers u v tracker hl

theorem run_measured {acts : List LinkStateAct} (hm : Lts.Meets (step T) (Measuring T) init acts)
    (hr : Lts.run (step T) init acts = some s) : Measured T s :=
  Lts.Meets.invariant (I := Measured T) (fun _ _ _ h hm hs => h.step hm hs) init_measured hm hr

/-- A node knows links of its own and of its session peers, and they lead to session peers of these. -/
theorem OneHop.known_link (h : OneHop T s) (hm : Measured T s)
    (hl : (s.routers u).graph.getLink x v = some m) :
    (x = u ∨ x ∈ T.sessions u) ∧ v ∈ T.sessions x ∧ 0 < m.cost := by
  by_cases hx : x = u
  · subst hx
    have hown := (h.routers x).mirrors v
    rw [(h.routers x).id, hl] at hown
    obtain ⟨tracker, htracker, rfl⟩ := Option.map_eq_some_iff.mp hown.symm
    obtain ⟨hv, hpos⟩ := hm.trackers x v tracker htracker
    exact ⟨.inl rfl, hv, hpos.cost_pos⟩
  · obtain hempty | ⟨m', ⟨update, hupdate, rfl, rfl, heq⟩, -, hm'⟩ := ((h.routers u).holds x v hx).value
    · have hnone : (s.routers u).graph.getLink x v = none := congrArg Prod.snd hempty
      rw [hl] at hnone
      cases hnone
    · cases hl.symm.trans hm'
      obtain ⟨hsession, hgenerated⟩ := h.heard u update hupdate
      obtain ⟨hv, hpos⟩ := hm.generated update.source update hgenerated
      rw [Prod.mk.injEq] at heq
      exact ⟨.inr (T.symm _ _ hsession), hv, heq.2 ▸ hpos⟩

theorem OneHop.nonneg (h : OneHop T s) (hm : Measured T s) (u : PeerId) : (s.routers u).graph.Nonneg :=
  fun _ _ _ hl => (h.known_link hm hl).2.2.le

end LinkStateMesh

/-! ## Routes through known links -/

section Chains

variable {known : PeerId → PeerId → Prop} {p : List PeerId}

theorem relays_of_isChain (hknown : ∀ x v, known x v → x = u ∨ x ∈ T.sessions u) (h : p.IsChain known) :
    ∀ x ∈ p.dropLast, x = u ∨ x ∈ T.sessions u := by
  induction p with
  | nil => simp
  | cons x p ih =>
      cases p with
      | nil => simp
      | cons y p =>
          obtain ⟨hxy, htail⟩ := List.isChain_cons_cons.mp h
          rw [List.dropLast_cons_cons]
          exact List.forall_mem_cons.mpr ⟨hknown x y hxy, ih htail⟩

theorem near_of_isChain (hknown : ∀ x v, known x v → (x = u ∨ x ∈ T.sessions u) ∧ v ∈ T.sessions x)
    (h : (x :: p).IsChain known) (hx : T.Near u x) (hlast : (x :: p).getLast? = some target) :
    T.Near u target := by
  induction p generalizing x with
  | nil =>
      cases hlast
      exact hx
  | cons y p ih =>
      obtain ⟨hxy, htail⟩ := List.isChain_cons_cons.mp h
      obtain ⟨rfl | hsession, hy⟩ := hknown x y hxy
      · exact ih htail (.inr (.inl hy)) hlast
      · exact ih htail (.inr (.inr ⟨x, hsession, hy⟩)) hlast

end Chains

namespace LinkStateMesh

/-- Every route leads through session peers only, and not further than to one of theirs. -/
theorem OneHop.returns_near {path : List PeerId} (h : OneHop T s) (hm : Measured T s)
    (hr : (s.routers u).Returns target (some path)) :
    T.Near u target ∧ ∀ x ∈ path.dropLast, x = u ∨ x ∈ T.sessions u := by
  obtain ⟨rest, d, rfl, hlast, hcost, -⟩ := hr.optimal (h.nonneg hm u)
  have hchain := RouteGraph.isChain_of_routeCost hcost
  have hknown : ∀ x v, ((s.routers u).graph.getLink x v).isSome →
      (x = u ∨ x ∈ T.sessions u) ∧ v ∈ T.sessions x := by
    intro x v hlink
    obtain ⟨m, hl⟩ := Option.isSome_iff_exists.mp hlink
    obtain ⟨hx, hv, -⟩ := h.known_link hm hl
    exact ⟨hx, hv⟩
  rw [(h.routers u).id] at hlast hchain ⊢
  exact ⟨near_of_isChain hknown hchain (.inl rfl) hlast, relays_of_isChain (fun x v hxv => (hknown x v hxv).1) hchain⟩

/-- After a tick of every node, with all packets delivered, a node has a walk to every peer that is near. -/
theorem OneHop.walk_of_near (h : OneHop T s) (hvisited : Visited T s) (hq : s.Quiet T)
    (hlt : ∀ v ∈ T.nodes, (s.generated v).length < 2 ^ 64) (hu : u ∈ T.nodes) (hnear : T.Near u target)
    (hbound : ∀ x v m, (s.routers u).graph.getLink x v = some m → m.cost < f64Max / 2) :
    ∃ d, Route (s.routers u).graph.links u target d ∧ d < f64Max := by
  have hmax := f64Max_pos
  have hown : ∀ v ∈ T.sessions u, ∃ m, (s.routers u).graph.getLink u v = some m := by
    intro v hv
    obtain ⟨htracked, -⟩ := hvisited u (hq.ticked u hu).1 v hv
    obtain ⟨tracker, hl⟩ := Option.isSome_iff_exists.mp (AList.lookup_isSome.mpr htracked)
    have hmirrors := (h.routers u).mirrors v
    rw [(h.routers u).id, hl] at hmirrors
    exact ⟨_, hmirrors⟩
  obtain rfl | hv | ⟨v, hv, htarget⟩ := hnear
  · exact ⟨0, .nil, hmax⟩
  · obtain ⟨m, hm⟩ := hown target hv
    refine ⟨m.cost + 0, .cons (RouteGraph.mem_links.mpr ⟨m, hm, rfl⟩) .nil, ?_⟩
    linarith [hbound _ _ _ hm]
  · obtain ⟨m, hm⟩ := hown v hv
    have hnode : v ∈ T.nodes := T.closed u hu v hv
    obtain ⟨hticked, htodo⟩ := hq.ticked v hnode
    obtain ⟨-, hor⟩ := hvisited v hticked target htarget
    obtain ⟨update, hlast⟩ := exists_lastUpdate (hor.resolve_left (by simp [htodo]))
    have hlink := h.getLink_lastUpdate hq.delivered (hlt v hnode) (T.symm _ _ hv) hlast
    refine ⟨m.cost + (update.metrics.cost + 0), .cons (RouteGraph.mem_links.mpr ⟨m, hm, rfl⟩)
      (.cons (RouteGraph.mem_links.mpr ⟨_, hlink, rfl⟩) .nil), ?_⟩
    linarith [hbound _ _ _ hm, hbound _ _ _ hlink]

end LinkStateMesh

end OmniMesh.Routing
