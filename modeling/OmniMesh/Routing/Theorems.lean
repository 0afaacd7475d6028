import OmniMesh.Core.Lemmas.Concrete
import OmniMesh.Routing.Lemmas.Forward
import OmniMesh.Routing.Lemmas.Gossip
import OmniMesh.Routing.Lemmas.LinkState
import OmniMesh.Routing.Lemmas.Recording
import OmniMesh.Routing.Lemmas.Restart
import OmniMesh.Routing.Lemmas.Route
import OmniMesh.Routing.Lemmas.Router

/-!
# Route computation
-/

namespace OmniMesh.Routing
open OmniMesh.Core

/-! ## The search ends -/

/-- A router whose graph has no cycle of negative cost within reach returns for every target, whatever
the order of the neighbours and of equal costs, and its paths are simple. For a target that no link
leads to, the search ends only then. -/
theorem findRoute_ends_iff (r : Router) :
    (¬ r.graph.NegativeCycle r.localPeerId → ∀ target,
      Lts.Ends (r.graph.step target) r.findRoute ∧
      (∃ cs result, Lts.run (r.graph.step target) r.findRoute cs = some (.done result)) ∧
      ∀ cs path, Lts.run (r.graph.step target) r.findRoute cs = some (.done (some path)) → path.Nodup) ∧
    ∀ target, target ≠ r.localPeerId → (∀ u, r.graph.getLink u target = none) →
      (Lts.Ends (r.graph.step target) r.findRoute ↔ ¬ r.graph.NegativeCycle r.localPeerId) := by
  have hends : ¬ r.graph.NegativeCycle r.localPeerId →
      ∀ target, Lts.Ends (r.graph.step target) r.findRoute :=
    fun hno target => ends_searching hno sound_init
  refine ⟨fun hno target => ⟨hends hno target, ?_, fun cs path hr => ?_⟩,
    fun target hne hlink => ⟨fun h hneg => ?_, fun hno => hends hno target⟩⟩
  · obtain ⟨cs, p, hr, result, rfl⟩ := (hends hno target).exists_run RouteGraph.step_progress
    exact ⟨cs, result, hr⟩
  · exact Lts.run_invariant (I := Phase.Sound r.graph r.localPeerId)
      (fun _ _ _ h hs => h.turn hno (RouteGraph.step_turn hs)) sound_init hr
  · exact (busy_init hne).not_ends hneg hlink h

def gossipOf (latencyMs : ℚ) : LinkStateUpdate := ⟨samplePeer 1, samplePeer 0, ⟨latencyMs, 10000, 0, 0⟩, 1, 0⟩

/-- Peer 0 measures its link to peer 1, then hears about the way back. -/
def exchangeOf (latencyMs : ℚ) : List Router.Call :=
  [.recordLatency (samplePeer 1) 10, .processLinkStateUpdate (gossipOf latencyMs)]

def exchanged (latencyMs : ℚ) : Router :=
  (((Router.new (samplePeer 0)).recordLatency (samplePeer 1) 10).processLinkStateUpdate (gossipOf latencyMs)).2

theorem exchanged_links (latencyMs : ℚ) (u v : PeerId) :
    (exchanged latencyMs).graph.getLink u v =
      if u = samplePeer 1 ∧ v = samplePeer 0 then some (gossipOf latencyMs).metrics
      else if u = samplePeer 0 ∧ v = samplePeer 1 then
        some ((Router.new (samplePeer 0)).tracker (samplePeer 1) |>.recordLatency 10).metrics
      else none := by
  have hgraph : (exchanged latencyMs).graph =
      ((Router.new (samplePeer 0)).recordLatency (samplePeer 1) 10).graph.addLink (samplePeer 1) (samplePeer 0)
        (gossipOf latencyMs).metrics := rfl
  rw [hgraph, RouteGraph.getLink_addLink, Router.recordLatency, Router.record_eq,
    RouteGraph.getLink_addLink]
  rfl

theorem exchanged_no_link (latencyMs : ℚ) (u : PeerId) :
    (exchanged latencyMs).graph.getLink u (samplePeer 2) = none := by
  rw [exchanged_links, if_neg fun h => absurd h.2 (by decide), if_neg fun h => absurd h.2 (by decide)]

theorem findRoute_ends_iff_honest :
    Lts.run Router.step (.new (samplePeer 0)) (exchangeOf 12) = some (exchanged 12) ∧
      (∀ target, ∃ cs result,
        Lts.run ((exchanged 12).graph.step target) (exchanged 12).findRoute cs = some (.done result)) ∧
      Lts.Ends ((exchanged 12).graph.step (samplePeer 2)) (exchanged 12).findRoute := by
  have hm : Lts.Meets Router.step Router.InRange (.new (samplePeer 0)) (exchangeOf 12) := by
    refine .cons ?_ rfl <| .cons ⟨?_, ?_, ?_⟩ rfl trivial
    all_goals norm_num [Router.InRange, gossipOf]
  have hno : ¬ (exchanged 12).graph.NegativeCycle (exchanged 12).localPeerId := by
    refine not_negCycle_of_nonneg fun u l hl => ?_
    obtain ⟨m, hlink, hcost⟩ := RouteGraph.mem_links.mp hl
    exact hcost ▸ (Router.run_nonneg hm rfl).links u l.1 m hlink
  have h := findRoute_ends_iff (exchanged 12)
  exact ⟨rfl, fun target => (h.1 hno target).2.1,
    (h.2 (samplePeer 2) (by decide) (exchanged_no_link 12)).mpr hno⟩

theorem cost_of_latency (latencyMs : ℚ) : LinkMetrics.cost ⟨latencyMs, 10000, 0, 0⟩ = latencyMs / 10 := by
  have hbw : max ((10000 : ℚ) / 1000) (1 / 10) = 10 := by norm_num
  simp only [LinkMetrics.cost, hbw, add_zero, mul_one]

/-- The way there costs 1 and the way back, with a latency of -1000 ms, costs -100. -/
theorem exchanged_negativeCycle :
    (exchanged (-1000)).graph.NegativeCycle (exchanged (-1000)).localPeerId := by
  have hema : LinkMetricTracker.ema 10 10 / 10 = 1 := by norm_num [LinkMetricTracker.ema, emaAlpha]
  have hthere : (samplePeer 1, (1 : ℚ)) ∈ (exchanged (-1000)).graph.links (samplePeer 0) :=
    RouteGraph.mem_links.mpr ⟨_, exchanged_links .., (cost_of_latency _).trans hema⟩
  have hback : (samplePeer 0, (-100 : ℚ)) ∈ (exchanged (-1000)).graph.links (samplePeer 1) :=
    RouteGraph.mem_links.mpr ⟨_, exchanged_links .., (cost_of_latency _).trans (by norm_num)⟩
  refine ⟨samplePeer 0, [], 0, [samplePeer 1, samplePeer 0], 0 + 1 + -100, .nil, ?_, by norm_num⟩
  have hlow : (0 : ℚ) + 1 + -100 < 1 := by norm_num
  exact .snoc (.snoc .nil hthere ((zero_add (1 : ℚ)).trans_lt one_lt_f64Max)) hback
    (hlow.trans one_lt_f64Max)

theorem findRoute_never_ends :
    Lts.run Router.step (.new (samplePeer 0)) (exchangeOf (-1000)) = some (exchanged (-1000)) ∧
      ¬ Lts.Ends ((exchanged (-1000)).graph.step (samplePeer 2)) (exchanged (-1000)).findRoute ∧
      ∀ cs result, Lts.run ((exchanged (-1000)).graph.step (samplePeer 2)) (exchanged (-1000)).findRoute cs ≠
        some (.done result) := by
  have hbusy : Phase.Busy (exchanged (-1000)).graph (samplePeer 0) (samplePeer 2) (exchanged (-1000)).findRoute :=
    busy_init (by decide)
  have hno_link := exchanged_no_link (-1000)
  refine ⟨rfl, hbusy.not_ends exchanged_negativeCycle hno_link, fun cs result hr => ?_⟩
  obtain ⟨s, hs, -⟩ := Lts.run_invariant
    (fun _ _ _ h hs => Phase.Busy.turn exchanged_negativeCycle hno_link h (RouteGraph.step_turn hs)) hbusy hr
  cases hs

/-! ## Gossip -/

/-- What a router learns depends only on which updates it has heard. -/
theorem gossip_converges (localPeerId : PeerId) (U : Finset LinkStateUpdate)
    (hU : ∀ u v, u ∈ U → v ∈ U → u.source = v.source → u.destination = v.destination →
      u.sequence = v.sequence → u.metrics = v.metrics) :
    (∀ us : List LinkStateUpdate, (∀ u, u ∈ us ↔ u ∈ U) → ∀ s d,
      ((((Router.new localPeerId).processAll us).graph.getLink s d).isSome ↔
        ∃ u ∈ U, u.source = s ∧ u.destination = d ∧ 1 ≤ u.sequence) ∧
      ∀ m, ((Router.new localPeerId).processAll us).graph.getLink s d = some m ↔
        ∃ u ∈ U, u.source = s ∧ u.destination = d ∧ 1 ≤ u.sequence ∧ u.metrics = m ∧
          ∀ v ∈ U, v.source = s → v.destination = d → v.sequence ≤ u.sequence) ∧
    (∀ us vs : List LinkStateUpdate, (∀ u, u ∈ us ↔ u ∈ U) → (∀ u, u ∈ vs ↔ u ∈ U) → ∀ s d,
      ((Router.new localPeerId).processAll us).graph.getLink s d =
        ((Router.new localPeerId).processAll vs).graph.getLink s d) ∧
    ∀ (us : List LinkStateUpdate) (u : LinkStateUpdate),
      (∀ s d, (((Router.new localPeerId).processAll us).held s d).1 ≤
        (((Router.new localPeerId).processAll (us ++ [u])).held s d).1) ∧
      ((((Router.new localPeerId).processAll us).processLinkStateUpdate u).1 = true ↔
        0 < u.sequence ∧ ∀ v ∈ us, v.source = u.source → v.destination = u.destination →
          v.sequence < u.sequence) := by
  have hcons : ∀ us : List LinkStateUpdate, (∀ u, u ∈ us ↔ u ∈ U) → Router.Consistent (· ∈ us) :=
    fun us hus u v hu hv => hU u v ((hus u).mp hu) ((hus v).mp hv)
  refine ⟨fun us hus s d => ⟨?_, fun m => ?_⟩, fun us vs hus hvs s d => ?_, fun us u => ⟨fun s d => ?_, ?_⟩⟩
  · simp only [← hus]
    exact Router.isSome_getLink_processAll
  · simp only [← hus]
    exact Router.getLink_processAll (hcons us hus)
  · ext m
    rw [Router.getLink_processAll (hcons us hus), Router.getLink_processAll (hcons vs hvs)]
    simp only [hus, hvs]
  · rw [Router.processAll_append]
    exact Router.held_process_le
  · exact Router.process_processAll

/-- Two measurements that peer 1 gossips about its link to peer 0. -/
def older : LinkStateUpdate := { gossipOf 5 with sequence := 1 }

def newer : LinkStateUpdate := { gossipOf 7 with sequence := 2 }

theorem gossip_converges_reordered :
    ((Router.new (samplePeer 0)).processAll [newer, older]).graph.getLink (samplePeer 1) (samplePeer 0) =
        some newer.metrics ∧
      ((Router.new (samplePeer 0)).processAll [newer, older]).graph.getLink (samplePeer 1) (samplePeer 0) =
        ((Router.new (samplePeer 0)).processAll [older, newer, older]).graph.getLink (samplePeer 1) (samplePeer 0) := by
  have h := gossip_converges (samplePeer 0) {older, newer} (by
    intro u v hu hv _ _ hseq
    simp only [Finset.mem_insert, Finset.mem_singleton] at hu hv
    rcases hu with rfl | rfl <;> rcases hv with rfl | rfl
    · rfl
    · cases hseq
    · cases hseq
    · rfl)
  have hfirst : ∀ u, u ∈ [newer, older] ↔ u ∈ ({older, newer} : Finset LinkStateUpdate) := by
    intro u
    simp [or_comm]
  have hsecond : ∀ u, u ∈ [older, newer, older] ↔ u ∈ ({older, newer} : Finset LinkStateUpdate) := by
    intro u
    simp only [List.mem_cons, List.not_mem_nil, or_false, Finset.mem_insert, Finset.mem_singleton]
    tauto
  refine ⟨((h.1 _ hfirst _ _).2 _).mpr ?_, h.2.1 _ _ hfirst hsecond _ _⟩
  refine ⟨newer, by simp, rfl, rfl, by decide, rfl, fun v hv _ _ => ?_⟩
  simp only [Finset.mem_insert, Finset.mem_singleton] at hv
  rcases hv with rfl | rfl <;> decide

/-! ## Own measurements -/

/-- A node's own links are what it measures as long as no update speaks for it. -/
theorem links_mirror_measurements (s : Recording) :
    (∀ localPeerId acts, Lts.Meets Recording.step Recording.Harmless (.init localPeerId) acts →
      Lts.run Recording.step (.init localPeerId) acts = some s → s.pending = [] →
      s.router.localPeerId = localPeerId ∧ ∀ peer,
        (∀ tracker, s.router.localTrackers.lookup peer = some tracker →
          s.router.graph.getLink localPeerId peer = some tracker.metrics) ∧
        (s.router.localTrackers.lookup peer = none → s.router.graph.getLink localPeerId peer = none)) ∧
    ∀ act t, s.pending = [] → ¬ Recording.Harmless s act → s.step act = some t → ¬ t.Mirrored := by
  refine ⟨fun localPeerId acts hm hr hnil => ?_, fun act t => Recording.not_mirrored⟩
  have hlocal : s.router.localPeerId = localPeerId := Recording.run_localPeerId hr
  have hmirrored := (Recording.run_coherent hm hr).mirrored hnil
  rw [hlocal] at hmirrored
  refine ⟨hlocal, fun peer => ⟨fun tracker ht => ?_, fun ht => ?_⟩⟩
  · rw [hmirrored, Recording.measured, ht]
    rfl
  · rw [hmirrored, Recording.measured, ht]
    rfl

/-- An update of a remote peer that names the node itself as the peer that measured the link. -/
def forged : LinkStateUpdate := { gossipOf 5 with source := samplePeer 0, destination := samplePeer 1 }

/-- Two calls for peer 1 that overlap, and the update received between their steps. -/
def overlapping : List RecordAct :=
  [.track (samplePeer 1) (.latency 20), .track (samplePeer 1) (.lossRate 1), .publish (samplePeer 1),
    .gossip forged, .publish (samplePeer 1)]

theorem links_mirror_measurements_overlapping :
    ∃ s tracker, Lts.run Recording.step (.init (samplePeer 0)) overlapping = some s ∧
      s.router.localTrackers.lookup (samplePeer 1) = some tracker ∧
      s.router.graph.getLink (samplePeer 0) (samplePeer 1) = some tracker.metrics := by
  have hm : Lts.Meets Recording.step Recording.Harmless (.init (samplePeer 0)) overlapping :=
    .cons trivial rfl <| .cons trivial rfl <| .cons trivial rfl <|
      .cons (fun _ => .inr <| .inr <| by decide) rfl <| .cons trivial rfl trivial
  exact ⟨_, _, rfl, rfl, (((links_mirror_measurements _).1 _ _ hm rfl rfl).2 (samplePeer 1)).1 _ rfl⟩

theorem links_not_measured : ∃ s, Lts.run Recording.step (.init (samplePeer 0)) [.gossip forged] = some s ∧
    s.pending = [] ∧ s.router.localTrackers.lookup (samplePeer 1) = none ∧
    s.router.graph.getLink (samplePeer 0) (samplePeer 1) = some forged.metrics := ⟨_, rfl, rfl, rfl, rfl⟩

/-! ## Restarts -/

/-- The newest measurement wins as long as a restarted sender numbers its updates above the old ones;
when it does not, some deliveries leave the receiver with an old one. -/
theorem newest_measurement_wins (source receiver : PeerId) :
    (∀ acts s, Lts.Meets Sharing.step Sharing.Fresh (.init source receiver) acts →
      Lts.run Sharing.step (.init source receiver) acts = some s →
      ∀ index update, s.Newest index update → index ∈ s.heard →
        s.receiver.graph.getLink source update.destination = some update.metrics) ∧
    ∀ acts s act t, Lts.run Sharing.step (.init source receiver) acts = some s →
      s.heard = [] → ¬ s.Fresh act → s.step act = some t →
      ∃ (deliveries : List ℕ) (v : Sharing),
        Lts.run Sharing.step t (deliveries.map .deliver) = some v ∧ ¬ v.NewestWins := by
  refine ⟨fun acts s hm hr index update hnew hheard => ?_, fun acts s act t hr hheard hf hs => ?_⟩
  · have hshared := Sharing.run_shared hr
    have hwins := hshared.newestWins (Sharing.run_ahead hm hr)
    exact hshared.source ▸ hwins index update hnew hheard
  · exact (Sharing.run_shared hr).not_newestWins hheard hf hs

/-- Two measurements of one run, heard in the wrong order and twice. -/
def twiceMeasured : List ShareAct :=
  [.record (samplePeer 1) (.latency 20), .generate (samplePeer 1) 0, .record (samplePeer 1) (.latency 70),
    .generate (samplePeer 1) 0, .deliver 1, .deliver 0, .deliver 1]

theorem newest_measurement_wins_twice :
    ∃ s update, Lts.run Sharing.step (.init (samplePeer 0) (samplePeer 2)) twiceMeasured = some s ∧
      s.generated[1]? = some update ∧
      s.receiver.graph.getLink (samplePeer 0) (samplePeer 1) = some update.metrics := by
  have hm : Lts.Meets Sharing.step Sharing.Fresh (.init (samplePeer 0) (samplePeer 2)) twiceMeasured := by
    refine .cons trivial rfl <| .cons (fun t ht => ⟨by decide, ?_⟩) rfl <| .cons trivial rfl <|
      .cons (fun t ht => ⟨by decide, ?_⟩) rfl <|
      .cons trivial rfl <| .cons trivial rfl <| .cons trivial rfl trivial
    · intro u hu
      cases hu
    · intro u hu _ _
      rw [List.mem_singleton.mp hu]
      decide
  refine ⟨_, _, rfl, rfl, (newest_measurement_wins _ _).1 _ _ hm rfl 1 _ ⟨rfl, ?_⟩ (by decide)⟩
  intro j u hj hu
  have hlt := (List.getElem?_eq_some_iff.mp hu).1
  exact absurd hlt (Nat.not_lt.mpr hj)

/-- A measurement, a restart, and a measurement that the new router numbers 1 again. -/
def restarted : List ShareAct :=
  [.record (samplePeer 1) (.latency 20), .generate (samplePeer 1) 0, .deliver 0, .restart,
    .record (samplePeer 1) (.latency 70), .generate (samplePeer 1) 1, .deliver 1]

/-- The first update of a new router after one latency sample. -/
def firstUpdate (latencyMs : ℚ) (timestamp : UInt64) : LinkStateUpdate :=
  ⟨samplePeer 0, samplePeer 1, { LinkMetrics.default with latencyMs := LinkMetricTracker.ema latencyMs 10 }, 1,
    timestamp⟩

theorem newest_measurement_lost :
    ∃ s, Lts.run Sharing.step (.init (samplePeer 0) (samplePeer 2)) restarted = some s ∧
      s.generated = [firstUpdate 20 0, firstUpdate 70 1] ∧ s.heard = [0, 1] ∧
      s.receiver.graph.getLink (samplePeer 0) (samplePeer 1) = some (firstUpdate 20 0).metrics ∧
      (firstUpdate 20 0).metrics ≠ (firstUpdate 70 1).metrics := by
  refine ⟨_, rfl, rfl, rfl, rfl, fun he => ?_⟩
  have hlatency := congrArg LinkMetrics.latencyMs he
  norm_num [firstUpdate, LinkMetricTracker.ema, emaAlpha] at hlatency

/-! ## Forwarding -/

/-- Forwarding never returns to a router, takes one of the finitely many routers with every move, pays
what a shortest route costs, and stops only at the target or at a peer that is not a router. -/
theorem forwarding_loop_free :
    (∀ samples : List Measurement, (∀ m ∈ samples, 0 ≤ m.value) →
      0 < ((LinkMetricTracker.new .default).recordAll samples).metrics.cost) ∧
    ∀ (M : Mesh) (r : Router) (target : PeerId), r ∈ M.routers → target ≠ r.localPeerId →
      (∃ path, r.Returns target (some path)) →
      ∃ d, Distance r.graph.links r.localPeerId target d ∧
        (∀ trace, M.Forwards target r.localPeerId trace →
          trace.Nodup ∧ trace.length ≤ M.routers.ncard + 1 ∧
          ∃ w, r.graph.routeCost trace = some w ∧ (trace.getLast? = some target → w = d)) ∧
        (∀ visited, ∀ r' ∈ M.routers, r'.localPeerId ≠ target →
          M.Forwards target r.localPeerId (visited ++ [r'.localPeerId]) →
          Lts.Ends (r'.graph.step target) r'.findRoute ∧ ∀ route, r'.Returns target route →
            ∃ hop, Router.nextHop route = some hop ∧
              M.Forwards target r.localPeerId (visited ++ [r'.localPeerId, hop])) ∧
        (M.Closed target → ∀ trace, M.Forwards target r.localPeerId trace →
          ∃ more, M.Forwards target r.localPeerId (trace ++ more) ∧
            (trace ++ more).getLast? = some target) := by
  refine ⟨fun samples hs => (LinkMetricTracker.Positive.default.recordAll hs).cost_pos,
    fun M r target hr _ ⟨path, hpath⟩ => ?_⟩
  obtain ⟨-, d, -, -, -, hd, hlt⟩ := hpath.optimal (Mesh.nonneg hr)
  refine ⟨d, hd, fun trace ht => ?_, fun visited r' hr' hne ht => ?_, fun hclosed trace ht => ?_⟩
  · obtain ⟨visited, u, rfl, hdesc⟩ := ht.descends hr hd
    obtain ⟨w, d', hw, hd', hsum, -⟩ := hdesc.cost
    refine ⟨hdesc.nodup, hdesc.length_le, w, hw, fun hlast => ?_⟩
    have hu : u = target := by simpa using hlast
    subst hu
    rw [← hsum, hd'.unique (.self (Mesh.nonneg hr).links), add_zero]
  · obtain ⟨visited', u, heq, hdesc⟩ := ht.descends hr hd
    obtain ⟨rfl, hu⟩ := List.append_inj' heq rfl
    cases hu
    refine ⟨r'.findRoute_ends (Mesh.nonneg hr') target, fun route hroute => ?_⟩
    obtain ⟨hop, hhop⟩ := hdesc.exists_hop hr hlt hr' hne hroute
    exact ⟨hop, hhop, .move ht hr' ⟨route, hroute, hhop⟩⟩
  · exact ht.exists_reach hr hd hlt hclosed

/-- A router that has learned the links from peer 0 to peer 1 and from there to peer 2. -/
def lineOf (b : UInt8) : Router :=
  (Router.new (samplePeer b)).processAll [forged, { gossipOf 5 with destination := samplePeer 2 }]

theorem lineOf_links (b : UInt8) (u v : PeerId) : (lineOf b).graph.getLink u v =
    if u = samplePeer 1 ∧ v = samplePeer 2 then some forged.metrics
    else if u = samplePeer 0 ∧ v = samplePeer 1 then some forged.metrics else none := by
  have hgraph : (lineOf b).graph = (RouteGraph.new.addLink (samplePeer 0) (samplePeer 1) forged.metrics).addLink
    (samplePeer 1) (samplePeer 2) forged.metrics := rfl
  rw [hgraph, RouteGraph.getLink_addLink, RouteGraph.getLink_addLink]
  rfl

theorem lineOf_link {b : UInt8} {u v : PeerId} {m : LinkMetrics}
    (h : (lineOf b).graph.getLink u v = some m) : (u = samplePeer 0 ∨ u = samplePeer 1) ∧ m.cost = 1 / 2 := by
  have hcost : forged.metrics.cost = 1 / 2 := (cost_of_latency 5).trans (by norm_num)
  rw [lineOf_links] at h
  split at h
  · rename_i hlink
    cases h
    exact ⟨.inr hlink.1, hcost⟩
  · split at h
    · rename_i hlink
      cases h
      exact ⟨.inl hlink.1, hcost⟩
    · cases h

def lineMesh : Mesh where
  routers := {lineOf 0, lineOf 1}
  finite := Set.toFinite _
  agree := by
    rintro r (rfl | rfl) r' (rfl | rfl) u v <;> simp only [lineOf_links]
  positive := by
    rintro r (rfl | rfl) u v m hm <;> exact (lineOf_link hm).2 ▸ by norm_num

theorem lineMesh_closed (target : PeerId) : lineMesh.Closed target := by
  intro r hr u v m hm _
  have hu : u = samplePeer 0 ∨ u = samplePeer 1 := by
    rcases hr with rfl | rfl
    · exact (lineOf_link hm).1
    · exact (lineOf_link hm).1
  rcases hu with rfl | rfl
  · exact ⟨lineOf 0, .inl rfl, rfl⟩
  · exact ⟨lineOf 1, .inr rfl, rfl⟩

theorem forwarding_loop_free_line :
    ∃ trace, lineMesh.Forwards (samplePeer 2) (samplePeer 0) trace ∧ trace.getLast? = some (samplePeer 2) ∧
      trace.Nodup := by
  have hr : lineOf 0 ∈ lineMesh.routers := .inl rfl
  have hfirst : (lineOf 0).graph.getLink (samplePeer 0) (samplePeer 1) = some forged.metrics := rfl
  have hsecond : (lineOf 0).graph.getLink (samplePeer 1) (samplePeer 2) = some forged.metrics := rfl
  have hroute : Route (lineOf 0).graph.links (lineOf 0).localPeerId (samplePeer 2) (1 / 2 + (1 / 2 + 0)) :=
    .cons (RouteGraph.mem_links.mpr ⟨_, hfirst, (lineOf_link hfirst).2⟩)
      (.cons (RouteGraph.mem_links.mpr ⟨_, hsecond, (lineOf_link hsecond).2⟩) .nil)
  have hlt : (1 / 2 + (1 / 2 + 0) : ℚ) < f64Max := by
    norm_num
    exact one_lt_f64Max
  obtain ⟨d, -, htrace, -, hreach⟩ := forwarding_loop_free.2 lineMesh (lineOf 0) (samplePeer 2) hr (by decide)
    (Router.exists_returns_some (Mesh.nonneg hr) hroute hlt)
  obtain ⟨trace, ht, hlast⟩ := hreach (lineMesh_closed _) _ .here
  exact ⟨_, ht, hlast, (htrace _ ht).1⟩

/-! ## Shortest paths -/

/-- With costs that are not negative every search ends, whatever the order of the neighbours and of equal
costs. It returns a simple path of least cost, and none only where every walk costs the bound or more. -/
theorem shortestPath_correct {g : RouteGraph} (hg : g.Nonneg) (start target : PeerId) :
    Lts.Ends (g.step target) (.searching (.init start)) ∧
    (∃ choices result, Lts.run (g.step target) (.searching (.init start)) choices = some (.done result)) ∧
    ∀ choices result,
      Lts.run (g.step target) (.searching (.init start)) choices = some (.done result) →
      (∀ path, result = some path → path.head? = some start ∧ path.getLast? = some target ∧
        path.IsChain (fun u v => (g.getLink u v).isSome) ∧ path.Nodup ∧
        ∃ d, g.routeCost path = some d ∧ IsLeast {w | g.WalkCost start target w} d) ∧
      (result = none ↔ ∀ w, g.WalkCost start target w → f64Max ≤ w) := by
  have hends := ends_of_nonneg hg start target
  refine ⟨hends, ?_, fun choices result hr => ?_⟩
  · obtain ⟨choices, p, hr, result, rfl⟩ := hends.exists_run RouteGraph.step_progress
    exact ⟨choices, result, hr⟩
  have hopt := run_optimal hg hr
  cases result with
  | none =>
      refine ⟨by simp, fun _ w hw => hopt w hw.route, fun _ => rfl⟩
  | some path =>
      obtain ⟨rest, d, rfl, hlast, hcost, hdist, hlt⟩ := hopt
      have hwalk : g.WalkCost start target d := ⟨start :: rest, rfl, hlast, hcost⟩
      constructor
      · rintro path ⟨⟩
        exact ⟨rfl, hlast, RouteGraph.isChain_of_routeCost hcost, run_sound hg hr, d, hcost, hwalk,
          fun w hw => hdist.2 hw.route⟩
      · simp only [reduceCtorEq, false_iff]
        exact fun hall => absurd (hall d hwalk) (not_le.mpr hlt)

theorem lineOf_nonneg (b : UInt8) : (lineOf b).graph.Nonneg := by
  intro u v m hm
  rw [(lineOf_link hm).2]
  norm_num

theorem lineOf_walkCost (b : UInt8) : (lineOf b).graph.WalkCost (samplePeer 0) (samplePeer 2) 1 := by
  have hfirst : (lineOf b).graph.getLink (samplePeer 0) (samplePeer 1) = some forged.metrics := rfl
  have hsecond : (lineOf b).graph.getLink (samplePeer 1) (samplePeer 2) = some forged.metrics := rfl
  refine ⟨[samplePeer 0, samplePeer 1, samplePeer 2], rfl, rfl, ?_⟩
  simp only [RouteGraph.routeCost, hfirst, hsecond, (lineOf_link hfirst).2]
  norm_num

theorem shortestPath_correct_line :
    ∃ choices path, Lts.run ((lineOf 0).graph.step (samplePeer 2)) (.searching (.init (samplePeer 0))) choices =
        some (.done (some path)) ∧
      path.head? = some (samplePeer 0) ∧ path.getLast? = some (samplePeer 2) ∧ path.Nodup := by
  obtain ⟨-, ⟨choices, result, hr⟩, hall⟩ :=
    shortestPath_correct (lineOf_nonneg 0) (samplePeer 0) (samplePeer 2)
  obtain ⟨hpath, hnone⟩ := hall choices result hr
  cases result with
  | none => exact absurd (hnone.mp rfl 1 (lineOf_walkCost 0)) (not_le.mpr one_lt_f64Max)
  | some path =>
      obtain ⟨hhead, hlast, -, hnodup, -⟩ := hpath path rfl
      exact ⟨choices, path, hr, hhead, hlast, hnodup⟩

/-! ## Link state in a mesh -/

/-- Link state goes one hop. Where every two nodes share a session it reaches everyone, in any order of
the deliveries; in every other mesh there is a node that misses a link. -/
theorem link_state_spreads (T : Topology) {acts : List LinkStateAct} {s : LinkStateMesh}
    (hm : Lts.Meets (LinkStateMesh.step T) (LinkStateMesh.Tracking T) .init acts)
    (hr : Lts.run (LinkStateMesh.step T) .init acts = some s) (hq : s.Quiet T) :
    (T.Complete → s.Current T → (∀ u ∈ T.nodes, (s.generated u).length < 2 ^ 64) → s.Spread T) ∧
    (¬ T.Complete → ¬ s.Spread T) := by
  have hhop := LinkStateMesh.run_oneHop hr
  refine ⟨fun hc hcurrent hlt u hu v hv w hw => ?_, fun hc hspread => hc fun u hu w hw hne => ?_⟩
  · obtain ⟨hticked, htodo⟩ := hq.ticked u hu
    obtain ⟨-, hvisited⟩ := LinkStateMesh.run_visited hm hr u hticked v hv
    obtain ⟨update, hlast⟩ := LinkStateMesh.exists_lastUpdate
      (hvisited.resolve_left (by simp [htodo]))
    refine ⟨update, hlast, ?_⟩
    by_cases hne : u = w
    · subst hne
      have hown := (hhop.routers u).mirrors v
      rw [(hhop.routers u).id] at hown
      exact hown.trans (hcurrent u hu v hv update hlast)
    · exact hhop.getLink_lastUpdate hq.delivered (hlt u hu) (hc u hu w hw hne) hlast
  · by_contra hsession
    obtain ⟨v, hv, -⟩ := (T.connected u hu w hw).cases_head.resolve_left hne
    obtain ⟨update, -, hlink⟩ := hspread u hu v hv w hw
    rw [hhop.getLink_none hne hsession] at hlink
    cases hlink

/-- The nodes of a star share a session with its center only. -/
def star (center : PeerId) (leaves : List PeerId) (h : center ∉ leaves) : Topology where
  nodes := center :: leaves
  sessions u := if u = center then leaves else if u ∈ leaves then [center] else []
  closed u _ v hv := by
    split at hv
    · exact List.mem_cons_of_mem _ hv
    · split at hv
      · exact List.mem_cons.mpr (.inl (List.mem_singleton.mp hv))
      · cases hv
  symm u v hv := by
    grind
  irrefl u hu := by
    grind
  connected u hu w hw := by
    refine Relation.ReflTransGen.trans (b := center) ?_ ?_
    · rcases List.mem_cons.mp hu with rfl | hu
      · exact .refl
      · exact .single (by grind)
    · rcases List.mem_cons.mp hw with rfl | hw
      · exact .refl
      · exact .single (by grind)

def pair : Topology := star (samplePeer 0) [samplePeer 1] (by decide)

/-- Two nodes that measure their link, tick and hear each other. -/
def pairTicks : List LinkStateAct :=
  [.record (samplePeer 0) (samplePeer 1) (.latency 20), .record (samplePeer 1) (samplePeer 0) (.latency 20),
    .tick (samplePeer 0) [samplePeer 1], .gossip (samplePeer 0) 0, .tick (samplePeer 1) [samplePeer 0],
    .gossip (samplePeer 1) 0, .deliver 1, .deliver 0]

theorem link_state_spreads_pair :
    ∃ s, Lts.run (LinkStateMesh.step pair) .init pairTicks = some s ∧ s.Spread pair := by
  have hm : Lts.Meets (LinkStateMesh.step pair) (LinkStateMesh.Tracking pair) .init pairTicks := by
    refine .cons trivial rfl <| .cons trivial rfl <| .cons ?_ rfl <| .cons trivial rfl <|
      .cons ?_ rfl <| .cons trivial rfl <| .cons trivial rfl <| .cons trivial rfl trivial
    · decide
    · decide
  refine ⟨_, rfl, (link_state_spreads pair hm rfl ⟨?_, rfl⟩).1 ?_ ?_ ?_⟩
  · decide
  · decide
  · intro u hu v hv update hlast
    rcases List.mem_pair.mp hu with rfl | rfl
    · cases List.mem_singleton.mp hv
      cases hlast
      rfl
    · cases List.mem_singleton.mp hv
      cases hlast
      rfl
  · decide

/-- A line with the node 1 in its middle. -/
def line : Topology := star (samplePeer 1) [samplePeer 0, samplePeer 2] (by decide)

/-- All three nodes measure their links, tick and hear everything that is sent to them. -/
def lineTicks : List LinkStateAct :=
  [.record (samplePeer 0) (samplePeer 1) (.latency 20), .record (samplePeer 1) (samplePeer 0) (.latency 20),
    .record (samplePeer 1) (samplePeer 2) (.latency 20), .record (samplePeer 2) (samplePeer 1) (.latency 20),
    .tick (samplePeer 0) [samplePeer 1], .gossip (samplePeer 0) 0, .tick (samplePeer 1) [samplePeer 0, samplePeer 2],
    .gossip (samplePeer 1) 0, .gossip (samplePeer 1) 0, .tick (samplePeer 2) [samplePeer 1], .gossip (samplePeer 2) 0,
    .deliver 0, .deliver 0, .deliver 0, .deliver 0, .deliver 0, .deliver 0]

theorem link_state_stops_after_one_hop :
    ∃ s, Lts.Meets (LinkStateMesh.step line) (LinkStateMesh.Tracking line) .init lineTicks ∧
      Lts.run (LinkStateMesh.step line) .init lineTicks = some s ∧ s.Quiet line ∧
      (s.routers (samplePeer 2)).graph.getLink (samplePeer 0) (samplePeer 1) = none ∧ ¬ s.Spread line := by
  refine ⟨_, ?_, rfl, ⟨?_, rfl⟩, rfl, fun hspread => ?_⟩
  · refine .cons trivial rfl <| .cons trivial rfl <| .cons trivial rfl <| .cons trivial rfl <|
      .cons ?_ rfl <| .cons trivial rfl <| .cons ?_ rfl <| .cons trivial rfl <| .cons trivial rfl <|
      .cons ?_ rfl <| .cons trivial rfl <| .cons trivial rfl <| .cons trivial rfl <| .cons trivial rfl <|
      .cons trivial rfl <| .cons trivial rfl <| .cons trivial rfl trivial
    · decide
    · decide
    · decide
  · decide
  · obtain ⟨update, -, hlink⟩ := hspread (samplePeer 0) (by decide) (samplePeer 1) (by decide) (samplePeer 2)
      (by decide)
    cases hlink

end OmniMesh.Routing
