import OmniMesh.Lib.Table
import OmniMesh.Routing.Lemmas.Recording
import OmniMesh.Routing.Lemmas.Restart
import OmniMesh.Routing.LinkState

/-!
# How far link state spreads
-/

namespace OmniMesh.Routing
open OmniMesh.Core

namespace Router

variable {r : Router} {u v w peer : PeerId} {method : LinkMetricTracker → LinkMetricTracker}

theorem held_record (h : u ≠ r.localPeerId) : (r.record peer method).held u v = r.held u v := by
  simp [held, record_eq, h]

/-- The own links of the graph are what the trackers measure. -/
def Mirrors (r : Router) : Prop :=
  ∀ v, r.graph.getLink r.localPeerId v = (r.localTrackers.lookup v).map LinkMetricTracker.metrics

theorem Mirrors.record (h : r.Mirrors) : (r.record peer method).Mirrors := by
  intro v
  rw [record_eq]
  by_cases hv : v = peer
  · subst hv
    simp
  · simpa [hv] using h v

theorem Mirrors.process {update : LinkStateUpdate} (h : r.Mirrors) (hu : update.source ≠ r.localPeerId) :
    (r.processLinkStateUpdate update).2.Mirrors := by
  intro v
  have hheld : (r.processLinkStateUpdate update).2.held r.localPeerId v = r.held r.localPeerId v :=
    held_process_of_ne fun hlink => hu hlink.1.symm
  rw [process_localPeerId, process_localTrackers, ← h v]
  exact congrArg Prod.snd hheld

/-- The router of `u` after `count` updates of its own and the updates `heard` of others. -/
structure Keeps (u : PeerId) (heard : List LinkStateUpdate) (count : ℕ) (r : Router) : Prop where
  id : r.localPeerId = u
  next : r.sequenceGenerator = UInt64.ofNat (count + 1)
  holds : ∀ x v, x ≠ u → Latest.Holds (Offers (· ∈ heard) x v) (r.held x v)
  mirrors : r.Mirrors

theorem new_keeps (u : PeerId) : Keeps u [] 0 (new u) where
  id := rfl
  next := rfl
  holds x v _ := held_processAll u [] x v
  mirrors _ := rfl

variable {heard : List LinkStateUpdate} {count : ℕ}

theorem Keeps.record (h : Keeps u heard count r) : Keeps u heard count (r.record peer method) where
  id := record_localPeerId.trans h.id
  next := by
    rw [record_eq]
    exact h.next
  holds x v hx := by
    rw [held_record (h.id ▸ hx)]
    exact h.holds x v hx
  mirrors := h.mirrors.record

theorem Keeps.generate (h : Keeps u heard count r) :
    Keeps u heard (count + 1) { r with sequenceGenerator := r.sequenceGenerator + 1 } where
  id := h.id
  next := by
    rw [h.next]
    exact (UInt64.ofNat_add (count + 1) 1).symm
  holds := h.holds
  mirrors := h.mirrors

theorem Keeps.process {update : LinkStateUpdate} (h : Keeps u heard count r) (hu : update.source ≠ u) :
    Keeps u (heard ++ [update]) count (r.processLinkStateUpdate update).2 where
  id := process_localPeerId.trans h.id
  next := process_sequenceGenerator.trans h.next
  holds x v hx := holds_process (h.holds x v hx) update
  mirrors := h.mirrors.process (h.id ▸ hu)

end Router

namespace LinkStateMesh

variable {T : Topology} {s t : LinkStateMesh} {act : LinkStateAct} {u v w : PeerId}

/-- What a step can do. -/
inductive Moves (T : Topology) (s : LinkStateMesh) : LinkStateAct → LinkStateMesh → Prop
  | record {node peer measurement} : Moves T s (.record node peer measurement)
      (s.setRouter node ((s.routers node).record peer measurement.record))
  | tick {node order} : order.Perm (T.sessions node) →
      Moves T s (.tick node order) { s with
        todo := Function.update s.todo node order
        ticked := Function.update s.ticked node true }
  | skip {node peer rest timestamp} : s.todo node = peer :: rest →
      peer ∉ (s.routers node).localTrackers →
      Moves T s (.gossip node timestamp) { s with todo := Function.update s.todo node rest }
  | gossip {node peer rest timestamp tracker} : s.todo node = peer :: rest →
      (s.routers node).localTrackers.lookup peer = some tracker →
      Moves T s (.gossip node timestamp)
        ⟨Function.update s.routers node { s.routers node with
            sequenceGenerator := (s.routers node).sequenceGenerator + 1 },
          Function.update s.todo node rest, s.ticked,
          s.flight ++ (T.sessions node).map fun receiver => (receiver,
            ⟨(s.routers node).localPeerId, peer, tracker.metrics, (s.routers node).sequenceGenerator,
              timestamp⟩),
          Function.update s.generated node (s.generated node ++
            [⟨(s.routers node).localPeerId, peer, tracker.metrics, (s.routers node).sequenceGenerator,
              timestamp⟩]),
          s.heard⟩
  | deliver {packet receiver update} : s.flight[packet]? = some (receiver, update) →
      Moves T s (.deliver packet)
        { s.setRouter receiver ((s.routers receiver).processLinkStateUpdate update).2 with
          flight := s.flight.eraseIdx packet
          heard := Function.update s.heard receiver (s.heard receiver ++ [update]) }

theorem step_moves (hs : s.step T act = some t) : s.Moves T act t := by
  cases act with
  | record node peer measurement =>
      cases hs
      exact .record
  | tick node order =>
      simp only [step] at hs
      obtain ⟨hguard, hs⟩ := Option.ite_none_right_eq_some.mp hs
      cases hs
      exact .tick hguard.2
  | gossip node timestamp =>
      simp only [step] at hs
      split at hs
      · cases hs
      · rename_i peer rest htodo
        cases hs
        rcases (s.routers node).getLinkStateUpdate_cases peer timestamp with ⟨hl, he⟩ | ⟨tracker, hl, he⟩
        · simp only [LinkStateMesh.gossip, he, setRouter, Function.update_eq_self]
          exact .skip htodo (AList.lookup_eq_none.mp hl)
        · simp only [LinkStateMesh.gossip, he, setRouter]
          exact .gossip htodo hl
  | deliver packet =>
      simp only [step] at hs
      split at hs
      · cases hs
      · rename_i hp
        cases hs
        exact .deliver hp

/-! ## Who has heard what -/

/-- An update is on its way to the session peers of its source, or they have heard it; nobody else has. -/
structure OneHop (T : Topology) (s : LinkStateMesh) : Prop where
  routers : ∀ u, Router.Keeps u (s.heard u) (s.generated u).length (s.routers u)
  generated : ∀ (u : PeerId) (i : ℕ) (update : LinkStateUpdate), (s.generated u)[i]? = some update →
    update.source = u ∧ update.sequence = UInt64.ofNat (i + 1)
  flight : ∀ p ∈ s.flight, p.1 ∈ T.sessions p.2.source ∧ p.2 ∈ s.generated p.2.source
  heard : ∀ w, ∀ update ∈ s.heard w, w ∈ T.sessions update.source ∧ update ∈ s.generated update.source
  reach : ∀ u, ∀ update ∈ s.generated u, ∀ w ∈ T.sessions u, update ∈ s.heard w ∨ (w, update) ∈ s.flight

theorem init_oneHop : OneHop T init where
  routers := Router.new_keeps
  generated _ _ _ hi := by cases hi
  flight _ hp := by cases hp
  heard _ _ hu := by cases hu
  reach _ _ hu := by cases hu

theorem OneHop.record {node peer : PeerId} {method : LinkMetricTracker → LinkMetricTracker}
    (h : OneHop T s) : OneHop T (s.setRouter node ((s.routers node).record peer method)) where
  routers := (Function.forall_update_iff s.routers fun u r =>
    Router.Keeps u (s.heard u) (s.generated u).length r).mpr ⟨(h.routers node).record, fun u _ => h.routers u⟩
  generated := h.generated
  flight := h.flight
  heard := h.heard
  reach := h.reach

theorem OneHop.gossip {node : PeerId} {todo : PeerId → List PeerId} {update : LinkStateUpdate}
    (h : OneHop T s) (hsource : update.source = node)
    (hsequence : update.sequence = (s.routers node).sequenceGenerator) :
    OneHop T ⟨Function.update s.routers node { s.routers node with
        sequenceGenerator := (s.routers node).sequenceGenerator + 1 },
      todo, s.ticked, s.flight ++ (T.sessions node).map fun receiver => (receiver, update),
      Function.update s.generated node (s.generated node ++ [update]), s.heard⟩ := by
  constructor
  · intro u
    by_cases hu : u = node
    · subst hu
      simpa using (h.routers u).generate
    · simpa [hu] using h.routers u
  · intro u i upd hi
    rcases Table.getElem?_update_concat hi with hi | ⟨rfl, rfl, rfl⟩
    · exact h.generated u i upd hi
    · exact ⟨hsource, hsequence.trans (h.routers u).next⟩
  · intro p hp
    simp only [Table.mem_update_concat]
    rcases List.mem_append.mp hp with hp | hp
    · exact ⟨(h.flight p hp).1, .inl (h.flight p hp).2⟩
    · obtain ⟨receiver, hreceiver, rfl⟩ := List.mem_map.mp hp
      exact ⟨hsource ▸ hreceiver, .inr ⟨hsource, rfl⟩⟩
  · intro w upd hupd
    simp only [Table.mem_update_concat]
    exact ⟨(h.heard w upd hupd).1, .inl (h.heard w upd hupd).2⟩
  · intro u upd hupd w hw
    simp only [List.mem_append]
    rcases Table.mem_update_concat.mp hupd with hupd | ⟨rfl, rfl⟩
    · exact (h.reach u upd hupd w hw).imp_right .inl
    · exact .inr (.inr (List.mem_map.mpr ⟨w, hw, rfl⟩))

theorem OneHop.deliver {packet : ℕ} {receiver : PeerId} {update : LinkStateUpdate} (h : OneHop T s)
    (hp : s.flight[packet]? = some (receiver, update)) :
    OneHop T { s.setRouter receiver ((s.routers receiver).processLinkStateUpdate update).2 with
      flight := s.flight.eraseIdx packet
      heard := Function.update s.heard receiver (s.heard receiver ++ [update]) } := by
  obtain ⟨hsession, hgenerated⟩ := h.flight _ (List.mem_of_getElem? hp)
  constructor
  · intro u
    by_cases hu : u = receiver
    · subst hu
      have hne : update.source ≠ u := fun he => T.irrefl u (he ▸ hsession)
      simpa [setRouter] using (h.routers u).process hne
    · simpa [setRouter, hu] using h.routers u
  · exact h.generated
  · intro p hmem
    exact h.flight p (List.mem_of_mem_eraseIdx hmem)
  · intro w upd hupd
    rcases Table.mem_update_concat.mp hupd with hupd | ⟨rfl, rfl⟩
    · exact h.heard w upd hupd
    · exact ⟨hsession, hgenerated⟩
  · intro u upd hupd w hw
    simp only [Table.mem_update_concat]
    rcases h.reach u upd hupd w hw with hheard | hflight
    · exact .inl (.inl hheard)
    · -- The packet that leaves the network is the one its receiver hears.
      obtain ⟨i, hi⟩ := List.mem_iff_getElem?.mp hflight
      by_cases he : i = packet
      · subst he
        obtain ⟨rfl, rfl⟩ := Prod.ext_iff.mp (Option.some.inj (hp.symm.trans hi))
        exact .inl (.inr ⟨rfl, rfl⟩)
      · exact .inr (List.mem_eraseIdx_iff_getElem?.mpr ⟨i, he, hi⟩)

theorem OneHop.step (h : OneHop T s) (hs : s.step T act = some t) : OneHop T t := by
  cases step_moves hs with
  | record => exact h.record
  | tick => exact ⟨h.routers, h.generated, h.flight, h.heard, h.reach⟩
  | skip => exact ⟨h.routers, h.generated, h.flight, h.heard, h.reach⟩
  | @gossip node => exact h.gossip (h.routers node).id rfl
  | deliver hp => exact h.deliver hp

theorem run_oneHop {acts : List LinkStateAct} (hr : Lts.run (step T) init acts = some s) : OneHop T s :=
  Lts.run_invariant (I := OneHop T) (fun _ _ _ h hs => h.step hs) init_oneHop hr

/-- A node that ticks visits its session peers, all of which it tracks. -/
def Visited (T : Topology) (s : LinkStateMesh) : Prop :=
  ∀ u, s.ticked u = true → ∀ v ∈ T.sessions u, v ∈ (s.routers u).localTrackers ∧
    (v ∈ s.todo u ∨ ∃ update ∈ s.generated u, update.destination = v)

theorem Visited.step (h : Visited T s) (ht : s.Tracking T act) (hs : s.step T act = some t) : Visited T t := by
  intro u hu v hv
  cases step_moves hs with
  | @record node peer measurement =>
      obtain ⟨htracked, hvisited⟩ := h u hu v hv
      refine ⟨?_, hvisited⟩
      by_cases he : u = node
      · subst he
        simp [setRouter, Router.record_eq, htracked]
      · simpa [setRouter, he] using htracked
  | @tick node order horder =>
      by_cases he : u = node
      · subst he
        simp only [Function.update_self]
        exact ⟨ht v hv, .inl (horder.mem_iff.mpr hv)⟩
      · simp only [Function.update_of_ne he] at hu ⊢
        exact h u hu v hv
  | @skip node peer rest _ htodo hpeer =>
      obtain ⟨htracked, hvisited⟩ := h u hu v hv
      refine ⟨htracked, hvisited.imp_left fun hmem => ?_⟩
      by_cases he : u = node
      · subst he
        rw [htodo] at hmem
        simp only [Function.update_self]
        exact (List.mem_cons.mp hmem).resolve_left fun hvp => hpeer (hvp ▸ htracked)
      · simpa only [Function.update_of_ne he] using hmem
  | @gossip node peer rest _ tracker htodo _ =>
      obtain ⟨htracked, hvisited⟩ := h u hu v hv
      simp only [Table.mem_update_concat]
      by_cases he : u = node
      · subst he
        simp only [Function.update_self]
        refine ⟨htracked, ?_⟩
        rcases hvisited with hmem | ⟨upd, hupd, hdest⟩
        · rw [htodo] at hmem
          rcases List.mem_cons.mp hmem with rfl | hmem
          · exact .inr ⟨_, .inr ⟨trivial, rfl⟩, rfl⟩
          · exact .inl hmem
        · exact .inr ⟨upd, .inl hupd, hdest⟩
      · simp only [Function.update_of_ne he]
        exact ⟨htracked, hvisited.imp_right fun ⟨upd, hupd, hdest⟩ => ⟨upd, .inl hupd, hdest⟩⟩
  | @deliver packet receiver update _ =>
      obtain ⟨htracked, hvisited⟩ := h u hu v hv
      refine ⟨?_, hvisited⟩
      by_cases he : u = receiver
      · subst he
        simpa [setRouter] using htracked
      · simpa [setRouter, he] using htracked

theorem run_visited {acts : List LinkStateAct} (hm : Lts.Meets (step T) (Tracking T) init acts)
    (hr : Lts.run (step T) init acts = some s) : Visited T s :=
  Lts.Meets.invariant (I := Visited T) (fun _ _ _ h ht hs => h.step ht hs) (fun _ hu => by cases hu) hm hr

/-! ## The last update of a link -/

theorem lastUpdate_some {update : LinkStateUpdate} (h : s.lastUpdate u v = some update) :
    ∃ i, (s.generated u)[i]? = some update ∧ update.destination = v ∧
      ∀ (j : ℕ) (upd : LinkStateUpdate), (s.generated u)[j]? = some upd → upd.destination = v → j ≤ i := by
  obtain ⟨hdest, later, earlier, hrev, hlater⟩ := List.find?_eq_some_iff_append.mp h
  have hlist : s.generated u = earlier.reverse ++ update :: later.reverse := by
    rw [← List.reverse_reverse (s.generated u), hrev]
    simp
  refine ⟨earlier.length, by simp [hlist], of_decide_eq_true hdest, fun j upd hj hd => ?_⟩
  rcases Nat.lt_or_ge earlier.length j with hlt | hge
  · have hmem : upd ∈ later := by
      rw [hlist, List.getElem?_append_right (by simpa using hlt.le), List.getElem?_cons] at hj
      split at hj
      · rename_i hzero
        rw [List.length_reverse] at hzero
        omega
      · exact List.mem_reverse.mp (List.mem_of_getElem? hj)
    simpa [hd] using hlater upd hmem
  · exact hge

theorem exists_lastUpdate (h : ∃ update ∈ s.generated u, update.destination = v) :
    ∃ update, s.lastUpdate u v = some update := by
  obtain ⟨update, hmem, hd⟩ := h
  exact Option.isSome_iff_exists.mp (List.find?_isSome.mpr
    ⟨update, List.mem_reverse.mpr hmem, decide_eq_true hd⟩)

/-! ## What a node knows -/

/-- A node that shares no session with `u` knows no link of `u`. -/
theorem OneHop.getLink_none (h : OneHop T s) (hne : u ≠ w) (hw : w ∉ T.sessions u) :
    (s.routers w).graph.getLink u v = none := by
  by_contra hsome
  obtain ⟨p, ⟨update, hupdate, rfl, -, -⟩, -⟩ := ((h.routers w).holds u v hne).isSome_iff.mp
    (Option.isSome_iff_ne_none.mpr hsome)
  exact hw (h.heard w update hupdate).1

theorem OneHop.toNat_sequence (h : OneHop T s) (hlt : (s.generated u).length < 2 ^ 64) {i : ℕ}
    {update : LinkStateUpdate} (hi : (s.generated u)[i]? = some update) : update.sequence.toNat = i + 1 := by
  rw [(h.generated u i update hi).2, UInt64.toNat_ofNat']
  have := (List.getElem?_eq_some_iff.mp hi).1
  exact Nat.mod_eq_of_lt (by omega)

/-- A session peer of `u` that has heard all of its updates holds the last one for each link. -/
theorem OneHop.getLink_lastUpdate {update : LinkStateUpdate} (h : OneHop T s) (hflight : s.flight = [])
    (hlt : (s.generated u).length < 2 ^ 64) (hw : w ∈ T.sessions u) (hu : s.lastUpdate u v = some update) :
    (s.routers w).graph.getLink u v = some update.metrics := by
  have hne : u ≠ w := by
    rintro rfl
    exact T.irrefl u hw
  have hheard : ∀ upd, (upd ∈ s.heard w ∧ upd.source = u) ↔ ∃ i : ℕ, (s.generated u)[i]? = some upd := by
    intro upd
    rw [← List.mem_iff_getElem?]
    constructor
    · rintro ⟨hupd, rfl⟩
      exact (h.heard w upd hupd).2
    · intro hupd
      obtain ⟨i, hi⟩ := List.mem_iff_getElem?.mp hupd
      refine ⟨(h.reach u upd hupd w hw).resolve_right fun hmem => ?_, (h.generated u i upd hi).1⟩
      rw [hflight] at hmem
      cases hmem
  obtain ⟨i, hi, hdest, hlast⟩ := lastUpdate_some hu
  refine (((h.routers w).holds u v hne).value_iff ?_).mpr ⟨i + 1, ⟨update, ?_⟩, Nat.succ_pos i, ?_⟩
  · rintro b m m' ⟨upd, hupd, hs, -, hp⟩ ⟨upd', hupd', hs', -, hp'⟩
    obtain ⟨j, hj⟩ := (hheard upd).mp ⟨hupd, hs⟩
    obtain ⟨j', hj'⟩ := (hheard upd').mp ⟨hupd', hs'⟩
    rw [h.toNat_sequence hlt hj, Prod.mk.injEq] at hp
    rw [h.toNat_sequence hlt hj', Prod.mk.injEq] at hp'
    obtain rfl : j = j' := Nat.succ_injective (hp.1.trans hp'.1.symm)
    rw [← hp.2, ← hp'.2, Option.some.inj (hj.symm.trans hj')]
  · obtain ⟨hmem, hsource⟩ := (hheard update).mpr ⟨i, hi⟩
    exact ⟨hmem, hsource, hdest, by rw [h.toNat_sequence hlt hi]⟩
  · rintro p ⟨upd, hupd, hs, hd, rfl⟩
    obtain ⟨j, hj⟩ := (hheard upd).mp ⟨hupd, hs⟩
    rw [h.toNat_sequence hlt hj]
    exact Nat.succ_le_succ (hlast j upd hj hd)

end LinkStateMesh

end OmniMesh.Routing
