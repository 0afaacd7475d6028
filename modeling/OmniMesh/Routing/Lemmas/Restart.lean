import OmniMesh.Routing.Lemmas.Gossip
import OmniMesh.Routing.Restart

/-!
# What the receiver of a restarting sender holds
-/

namespace OmniMesh.Routing
open OmniMesh.Core

namespace Router

variable {r : Router} {peer : PeerId} {method : LinkMetricTracker → LinkMetricTracker}

@[simp] theorem record_localPeerId : (r.record peer method).localPeerId = r.localPeerId := by
  rw [record_eq]

/-- `get_link_state_update` yields nothing for a peer without a tracker, and otherwise the tracker's
metrics under the next number. -/
theorem getLinkStateUpdate_cases (r : Router) (peer : PeerId) (timestamp : UInt64) :
    (r.localTrackers.lookup peer = none ∧ r.getLinkStateUpdate peer timestamp = (none, r)) ∨
    ∃ tracker, r.localTrackers.lookup peer = some tracker ∧
      r.getLinkStateUpdate peer timestamp =
        (some ⟨r.localPeerId, peer, tracker.metrics, r.sequenceGenerator, timestamp⟩,
          { r with sequenceGenerator := r.sequenceGenerator + 1 }) := by
  unfold getLinkStateUpdate
  cases h : r.localTrackers.lookup peer with
  | none => exact .inl ⟨rfl, rfl⟩
  | some tracker => exact .inr ⟨tracker, rfl, rfl⟩

end Router

namespace Sharing

variable {s t : Sharing} {act : ShareAct} {S R peer : PeerId} {u v : LinkStateUpdate} {i : ℕ}

/-- What a step can do. -/
inductive Moves (s : Sharing) : ShareAct → Sharing → Prop
  | sender {act sender} : sender.localPeerId = s.sender.localPeerId → Moves s act { s with sender }
  | generate {peer timestamp tracker sender} :
      s.sender.localTrackers.lookup peer = some tracker → sender.localPeerId = s.sender.localPeerId →
      Moves s (.generate peer timestamp) { s with
        sender
        generated := s.generated ++
          [⟨s.sender.localPeerId, peer, tracker.metrics, s.sender.sequenceGenerator, timestamp⟩] }
  | deliver {i update} : s.generated[i]? = some update →
      Moves s (.deliver i) { s with
        receiver := (s.receiver.processLinkStateUpdate update).2
        heard := s.heard ++ [i] }

theorem step_moves (hs : s.step act = some t) : s.Moves act t := by
  cases act with
  | record peer measurement =>
      cases hs
      exact .sender Router.record_localPeerId
  | generate peer timestamp =>
      rcases s.sender.getLinkStateUpdate_cases peer timestamp with ⟨-, he⟩ | ⟨tracker, ht, he⟩
      · simp only [step, he, Option.toList_none, List.append_nil] at hs
        cases hs
        exact .sender rfl
      · simp only [step, he, Option.toList_some] at hs
        cases hs
        exact .generate ht rfl
  | restart =>
      cases hs
      exact .sender rfl
  | deliver i =>
      simp only [step] at hs
      split at hs
      · cases hs
      · rename_i update hi
        cases hs
        exact .deliver hi

/-- The updates that the receiver has processed. -/
def received (s : Sharing) : List LinkStateUpdate := s.heard.filterMap (s.generated[·]?)

theorem mem_received (hi : s.generated[i]? = some u) (hheard : i ∈ s.heard) : u ∈ s.received :=
  List.mem_filterMap.mpr ⟨i, hheard, hi⟩

theorem mem_generated (h : u ∈ s.received) : u ∈ s.generated := by
  obtain ⟨i, -, hi⟩ := List.mem_filterMap.mp h
  exact List.mem_of_getElem? hi

structure Shared (S R : PeerId) (s : Sharing) : Prop where
  source : s.sender.localPeerId = S
  generated : ∀ u ∈ s.generated, u.source = S
  heard : ∀ i ∈ s.heard, i < s.generated.length
  receiver : s.receiver = (Router.new R).processAll s.received

theorem init_shared : Shared S R (init S R) where
  source := rfl
  generated _ h := by cases h
  heard _ h := by cases h
  receiver := rfl

theorem received_append {us : List LinkStateUpdate} {sender : Router}
    (h : ∀ i ∈ s.heard, i < s.generated.length) :
    received { s with sender, generated := s.generated ++ us } = s.received := by
  refine List.filterMap_congr fun i hi => ?_
  exact List.getElem?_append_left (h i hi)

theorem Shared.step (h : Shared S R s) (hs : s.step act = some t) :
    Shared S R t := by
  cases step_moves hs with
  | sender hid => exact ⟨hid.trans h.source, h.generated, h.heard, h.receiver⟩
  | generate ht hid =>
      refine ⟨hid.trans h.source, fun u hu => ?_, fun i hi => ?_, ?_⟩
      · rcases List.mem_append.mp hu with hu | hu
        · exact h.generated u hu
        · rw [List.mem_singleton.mp hu]
          exact h.source
      · have hlt := h.heard i hi
        simp only [List.length_append]
        omega
      · rw [received_append h.heard]
        exact h.receiver
  | @deliver i update hi =>
      refine ⟨h.source, h.generated, fun j hj => ?_, ?_⟩
      · rcases List.mem_append.mp hj with hj | hj
        · exact h.heard j hj
        · rw [List.mem_singleton.mp hj]
          exact (List.getElem?_eq_some_iff.mp hi).1
      · have hreceived : received { s with
            receiver := (s.receiver.processLinkStateUpdate update).2
            heard := s.heard ++ [i] } = s.received ++ [update] := by
          simp [received, List.filterMap_append, hi]
        rw [hreceived, Router.processAll_append, ← h.receiver]
        rfl

theorem run_shared {acts : List ShareAct} (hr : Lts.run step (init S R) acts = some s) :
    Shared S R s :=
  Lts.run_invariant (fun _ _ _ h hs => h.step hs) init_shared hr

/-- The newest update of a link is numbered above all that carry other metrics. -/
def Ahead (s : Sharing) : Prop :=
  ∀ i u, s.Newest i u → 0 < u.sequence ∧ ∀ v ∈ s.generated, v.destination = u.destination →
    v.metrics ≠ u.metrics → v.sequence < u.sequence

theorem Newest.of_append {us : List LinkStateUpdate} {sender : Router}
    (h : Newest { s with sender, generated := s.generated ++ us } i u) (hi : i < s.generated.length) :
    s.Newest i u := by
  obtain ⟨hu, hlast⟩ := h
  refine ⟨?_, fun j v hj hv => hlast j v hj ?_⟩
  · rwa [← List.getElem?_append_left hi]
  · simp only
    rwa [List.getElem?_append_left (List.getElem?_eq_some_iff.mp hv).1]

theorem Ahead.step (h : Ahead s) (hf : s.Fresh act) (hs : s.step act = some t) : Ahead t := by
  cases step_moves hs with
  | sender hid => exact h
  | deliver hi => exact h
  | @generate peer timestamp tracker sender ht hid =>
      obtain ⟨hpos, habove⟩ := hf tracker ht
      intro i u hnew
      rcases Nat.lt_or_ge i s.generated.length with hi | hi
      · -- an older update is the newest of its link only if the link is another one
        obtain ⟨hpos', habove'⟩ := h i u (hnew.of_append hi)
        refine ⟨hpos', fun v hv hd hm => ?_⟩
        rcases List.mem_append.mp hv with hv | hv
        · exact habove' v hv hd hm
        · rw [List.mem_singleton.mp hv] at hd
          exact absurd hd (hnew.2 s.generated.length _ hi (by simp))
      · obtain rfl : i = s.generated.length := by
          have := (List.getElem?_eq_some_iff.mp hnew.1).1
          simp only [List.length_append, List.length_singleton] at this
          omega
        have hu := hnew.1
        simp only [List.getElem?_concat_length, Option.some.injEq] at hu
        subst hu
        refine ⟨hpos, fun v hv hd hm => ?_⟩
        rcases List.mem_append.mp hv with hv | hv
        · exact habove v hv hd hm
        · rw [List.mem_singleton.mp hv] at hm
          exact absurd rfl hm

theorem run_ahead {acts : List ShareAct} (hm : Lts.Meets step Fresh (init S R) acts)
    (hr : Lts.run step (init S R) acts = some s) : Ahead s := by
  refine Lts.Meets.invariant (fun _ _ _ h hf hs => h.step hf hs) (fun i u hnew => ?_) hm hr
  cases hnew.1

theorem Shared.newestWins (h : Shared S R s) (ha : Ahead s) : s.NewestWins := by
  intro i u hnew hheard
  have hmem : u ∈ s.received := mem_received hnew.1 hheard
  obtain ⟨hpos, habove⟩ := ha i u hnew
  have hheld := Router.held_processAll R s.received S u.destination
  rw [← h.receiver] at hheld
  have hle := hheld.bound _ ⟨u, hmem, h.generated u (mem_generated hmem), rfl, rfl⟩
  rw [h.source]
  rcases hheld.value with he | ⟨m, ⟨v, hv, -, hd, hp⟩, -, hm⟩
  · rw [he] at hle
    exact absurd (UInt64.lt_iff_toNat_lt.mp hpos) (Nat.not_lt.mpr hle)
  · obtain ⟨hseq, rfl⟩ := Prod.ext_iff.mp hp
    refine hm.trans (congrArg some (Classical.not_not.mp fun hne => ?_))
    have hlt := UInt64.lt_iff_toNat_lt.mp (habove v (mem_generated hv) hd hne)
    simp only at hseq hle
    omega

/-! ## The condition is needed -/

/-- After an update, another for its link that is not numbered above it changes nothing. -/
theorem getLink_processAll_pair (hpos : 0 < u.sequence) (hv : v.sequence ≤ u.sequence)
    (hs : v.source = u.source) (hd : v.destination = u.destination) :
    ((Router.new R).processAll [u, v]).graph.getLink u.source u.destination = some u.metrics := by
  have hfirst : ((Router.new R).processLinkStateUpdate u).2.held u.source u.destination =
      (u.sequence.toNat, some u.metrics) := by
    rw [Router.held_process_self, Router.held_new]
    exact Latest.offer_of_lt (UInt64.lt_iff_toNat_lt.mp hpos)
  have hsecond : ((Router.new R).processAll [u, v]).held u.source u.destination =
      (u.sequence.toNat, some u.metrics) := by
    change ((((Router.new R).processLinkStateUpdate u).2.processLinkStateUpdate v).2.held _ _) = _
    rw [← hs, ← hd, Router.held_process_self, hs, hd, hfirst]
    exact Latest.offer_of_le (UInt64.le_iff_toNat_le.mp hv)
  exact congrArg Prod.snd hsecond

theorem getLink_processAll_zero (hzero : u.sequence = 0) :
    ((Router.new R).processAll [u]).graph.getLink u.source u.destination = none := by
  rw [← Option.not_isSome_iff_eq_none, Router.isSome_getLink_processAll]
  rintro ⟨v, hv, -, -, hpos⟩
  rw [List.mem_singleton.mp hv, hzero] at hpos
  exact absurd hpos (by decide)

/-- Deliveries at positions that exist are possible, and are all that the receiver hears. -/
theorem exists_run_deliver (is : List ℕ) (h : ∀ i ∈ is, i < s.generated.length) :
    ∃ receiver, Lts.run step s (is.map .deliver) =
      some { s with receiver, heard := s.heard ++ is } := by
  induction is generalizing s with
  | nil => exact ⟨s.receiver, by simp [Lts.run]⟩
  | cons i is ih =>
      obtain ⟨hi, his⟩ := List.forall_mem_cons.mp h
      have hstep : s.step (.deliver i) = some { s with
          receiver := (s.receiver.processLinkStateUpdate s.generated[i]).2
          heard := s.heard ++ [i] } := by
        simp [step, hi]
      obtain ⟨receiver, hr⟩ := ih (s := { s with
        receiver := (s.receiver.processLinkStateUpdate s.generated[i]).2
        heard := s.heard ++ [i] }) his
      refine ⟨receiver, ?_⟩
      simp [Lts.run, hstep, hr]

theorem newest_concat {sender : Router} :
    Newest { s with sender, generated := s.generated ++ [u] } s.generated.length u := by
  refine ⟨by simp, fun j v hj hv => ?_⟩
  have hlt := (List.getElem?_eq_some_iff.mp hv).1
  simp only [List.length_append, List.length_singleton] at hlt
  omega

/-- Deliveries, the newest update among them, that leave the receiver without its metrics. -/
theorem Shared.exists_not_newestWins (h : Shared S R s) (hheard : s.heard = []) {is : List ℕ}
    (his : ∀ j ∈ is, j < s.generated.length) (hnew : s.Newest i u) (hi : i ∈ is)
    (hlink : ((Router.new R).processAll (is.filterMap (s.generated[·]?))).graph.getLink
      u.source u.destination ≠ some u.metrics) :
    ∃ v, Lts.run Sharing.step s (is.map .deliver) = some v ∧ ¬ v.NewestWins := by
  obtain ⟨receiver, hr⟩ := exists_run_deliver is his
  rw [hheard, List.nil_append] at hr
  have hv : Shared S R _ := Lts.run_invariant (fun _ _ _ h hs => h.step hs) h hr
  refine ⟨_, hr, fun hwins => hlink ?_⟩
  have hlast := hwins i u hnew hi
  have hsource : s.sender.localPeerId = u.source :=
    h.source.trans (h.generated u (List.mem_of_getElem? hnew.1)).symm
  rw [hsource] at hlast
  exact hv.receiver ▸ hlast

theorem Shared.concat_not_newestWins {sender : Router}
    (h : Shared S R { s with sender, generated := s.generated ++ [v] }) (hheard : s.heard = [])
    (hold : 0 < v.sequence → ∃ u ∈ s.generated, u.destination = v.destination ∧
      u.metrics ≠ v.metrics ∧ v.sequence ≤ u.sequence) :
    ∃ (is : List ℕ) (t : Sharing),
      Lts.run Sharing.step { s with sender, generated := s.generated ++ [v] } (is.map .deliver) = some t ∧
        ¬ t.NewestWins := by
  rcases Classical.em (v.sequence = 0) with hzero | hpos
  · refine ⟨[s.generated.length],
      h.exists_not_newestWins hheard (by simp) newest_concat (by simp) ?_⟩
    simp [getLink_processAll_zero hzero]
  · have hpos := UInt64.pos_iff_ne_zero.mpr hpos
    obtain ⟨u, hu, hd, hm, hle⟩ := hold hpos
    obtain ⟨i, hi, rfl⟩ := List.getElem_of_mem hu
    refine ⟨[i, s.generated.length],
      h.exists_not_newestWins hheard ?_ newest_concat (by simp) ?_⟩
    · simp only [List.mem_cons, List.not_mem_nil, or_false, List.length_append, List.length_singleton]
      omega
    · have hs : v.source = s.generated[i].source :=
        (h.generated v (by simp)).trans (h.generated _ (List.mem_append_left _ hu)).symm
      have hheld := getLink_processAll_pair (R := R) (UInt64.lt_of_lt_of_le hpos hle) hle hs hd.symm
      simp only [List.filterMap_cons, List.getElem?_append_left hi, List.getElem?_eq_getElem hi,
        List.getElem?_concat_length, List.filterMap_nil]
      rw [hs, ← hd, hheld]
      exact fun he => hm (Option.some.inj he)

/-- When an update is not fresh, there are deliveries after which the receiver has the newest update
without its metrics. -/
theorem Shared.not_newestWins (h : Shared S R s) (hheard : s.heard = []) (hf : ¬ s.Fresh act)
    (hs : s.step act = some t) :
    ∃ (is : List ℕ) (v : Sharing), Lts.run Sharing.step t (is.map .deliver) = some v ∧
      ¬ v.NewestWins := by
  have hshared := h.step hs
  cases act with
  | record peer measurement => exact absurd trivial hf
  | restart => exact absurd trivial hf
  | deliver i => exact absurd trivial hf
  | generate peer timestamp =>
      simp only [Fresh, not_forall] at hf
      obtain ⟨tracker, ht, hf⟩ := hf
      simp only [Sharing.step, Router.getLinkStateUpdate, ht, Option.toList_some] at hs
      cases hs
      refine hshared.concat_not_newestWins hheard fun hpos => ?_
      simp only [hpos, true_and, not_forall, UInt64.not_lt] at hf
      obtain ⟨u, hu, hd, hm, hle⟩ := hf
      exact ⟨u, hu, hd, hm, hle⟩

end Sharing

end OmniMesh.Routing
