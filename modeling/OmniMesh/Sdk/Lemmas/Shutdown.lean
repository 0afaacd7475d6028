import Mathlib.Data.Fintype.EquivFin
import OmniMesh.Core.Lemmas.Concrete
import OmniMesh.Sdk.Lemmas.Node
import OmniMesh.Sdk.Shutdown

/-!
# After the shutdown
-/

namespace OmniMesh.Sdk
open OmniMesh.Core

/-! ## Running loops -/

namespace Node

variable {s : Node} {conn : Nat} {peer : PeerId} {sig : Bool}

theorem running_of_setStage {conn' stage}
    (h : (s.setStage conn' stage).stages.lookup conn = some (.running peer sig)) :
    s.stages.lookup conn = some (.running peer sig) ∨ (conn = conn' ∧ stage = .running peer sig) := by
  by_cases hc : conn = conn'
  · subst hc
    simp only [setStage, AList.lookup_insert] at h
    exact .inr ⟨rfl, Option.some.inj h⟩
  · simp only [setStage, AList.lookup_insert_ne hc] at h
    exact .inl h

theorem running_of_signalAll (h : (signalAll s.stages).lookup conn = some (.running peer sig)) :
    sig = true ∧ ∃ sig', s.stages.lookup conn = some (.running peer sig') := by
  rw [lookup_signalAll] at h
  obtain ⟨stage, hl, hstage⟩ := Option.map_eq_some_iff.mp h
  cases stage with
  | running p sig' =>
      cases hstage
      exact ⟨rfl, sig', hl⟩
  | handshaking => cases hstage
  | shaken p => cases hstage
  | inserted p => cases hstage
  | ended => cases hstage

end Node

/-! ## Timely runs -/

namespace Lifetime

variable {s t : Lifetime} {act : LifeAct} {nact : NodeAct} {node : Node}

structure Quiet (s : Lifetime) : Prop where
  cleared : s.node.stopping = .cleared → s.node.sessions = ∅
  signalled : s.node.stopping ≠ .no → ∀ conn peer sig,
    s.node.stages.lookup conn = some (.running peer sig) → sig = true
  returned : s.returned → s.node.stopping = .cleared ∧ s.Settled
  late : s.late = false

theorem init_quiet : Quiet init where
  cleared h := by cases h
  signalled h := absurd rfl h
  returned h := by cases h
  late := rfl

/-- A connection goes on to a stage before or behind its loop. -/
theorem Quiet.setStage (h : Quiet s) {conn : Nat} {stage : Stage}
    (hstage : ∀ peer sig, stage ≠ .running peer sig) :
    Quiet { s with node := s.node.setStage conn stage } := by
  have hold : ∀ {c peer sig}, (s.node.setStage conn stage).stages.lookup c = some (.running peer sig) →
      s.node.stages.lookup c = some (.running peer sig) := by
    intro c peer sig hl
    exact (Node.running_of_setStage hl).resolve_right fun he => hstage peer sig he.2
  refine ⟨h.cleared, fun hne c peer sig hl => h.signalled hne c peer sig (hold hl), fun hr => ?_, h.late⟩
  exact ⟨(h.returned hr).1, fun c peer sig hl => (h.returned hr).2 c peer sig (hold hl)⟩

/-- A task of a connection, in a timely run. -/
theorem Quiet.task (h : Quiet s) (ha : s.allowed nact) (ht : s.Timely (.task nact))
    (hs : s.node.step nact = some node) : Quiet { s with node } := by
  cases Node.step_moves hs with
  | opened => exact h.setStage (by simp)
  | shaken => exact h.setStage (by simp)
  | failed => exact h.setStage (by simp)
  | exit => exact h.setStage (by simp)
  | @insert conn peer =>
      -- sessions are not yet cleared, so no call has returned
      have hstage : Quiet { s with node := s.node.setStage conn (.inserted peer) } :=
        h.setStage (by simp)
      exact ⟨fun hc => absurd hc ht, hstage.signalled, hstage.returned, h.late⟩
  | start =>
      -- the signal is not yet sent
      refine ⟨h.cleared, fun hne => absurd ht hne, fun hr => ?_, h.late⟩
      cases ((h.returned hr).1).symm.trans ht
  | signal _ => cases ha
  | clear _ => cases ha

theorem Quiet.step (h : Quiet s) (ht : s.Timely act) (hs : s.step act = some t) : Quiet t := by
  cases act with
  | task nact =>
      simp only [Lifetime.step] at hs
      split at hs
      · rename_i ha
        obtain ⟨node, hnode, rfl⟩ := Option.map_eq_some_iff.mp hs
        exact h.task ha ht hnode
      · cases hs
  | enter conn =>
      simp only [Lifetime.step] at hs
      split at hs
      · rename_i peer sig hl
        split at hs
        · cases hs
        · rename_i hnew
          cases hs
          have hnot : s.returned = false := by
            rw [← Bool.not_eq_true]
            exact fun hr => hnew ((h.returned hr).2 conn peer sig hl)
          refine ⟨h.cleared, h.signalled, fun hr => absurd hr (by simp [hnot]), ?_⟩
          simp [h.late, hnot]
      · cases hs
  | call =>
      simp only [Lifetime.step] at hs
      split at hs
      · cases hs
        exact ⟨h.cleared, h.signalled, h.returned, h.late⟩
      · rename_i hrun
        cases hs
        exact ⟨h.cleared, h.signalled, fun _ => ht (by simpa using hrun), h.late⟩
  | signal =>
      simp only [Lifetime.step] at hs
      split at hs
      · cases hs
      · obtain ⟨node, hnode, rfl⟩ := Option.map_eq_some_iff.mp hs
        cases Node.step_moves hnode with
        | signal hno =>
            refine ⟨nofun, fun _ c peer sig hl => (Node.running_of_signalAll hl).1, fun hr => ?_, h.late⟩
            cases hno.symm.trans (h.returned hr).1
  | clear =>
      obtain ⟨node, hnode, rfl⟩ := Option.map_eq_some_iff.mp hs
      cases Node.step_moves hnode with
      | clear hsig =>
          refine ⟨fun _ => rfl, fun _ c peer sig hl => ?_, fun hr => ?_, h.late⟩
          · exact h.signalled (by rw [hsig]; exact nofun) c peer sig hl
          · cases hsig.symm.trans (h.returned hr).1
  | close =>
      simp only [Lifetime.step] at hs
      split at hs
      · rename_i hc
        cases hs
        exact ⟨h.cleared, h.signalled, fun _ => ⟨hc, ht⟩, h.late⟩
      · cases hs

theorem Quiet.final (h : Quiet s) : s.Final := by
  intro hr
  obtain ⟨hc, -⟩ := h.returned hr
  refine ⟨h.cleared hc, fun conn _ peer sig hl => h.signalled ?_ conn peer sig hl, h.late⟩
  rw [hc]
  exact nofun

theorem run_quiet {acts : List LifeAct} (hm : Lts.Meets step Timely init acts)
    (hr : Lts.run step init acts = some s) : Quiet s :=
  Lts.Meets.invariant (fun _ _ _ h ht hs => h.step ht hs) init_quiet hm hr

/-! ## Steps that are not timely -/

/-- From here a run of timely steps breaks what a shutdown promises. -/
def Doomed (s : Lifetime) : Prop :=
  ∃ more u, Lts.Meets step Timely s more ∧ Lts.run step s more = some u ∧ ¬ u.Final

theorem Doomed.of_step (hs : s.step act = some t) (ht : s.Timely act) (h : t.Doomed) : s.Doomed := by
  obtain ⟨more, u, hm, hr, hu⟩ := h
  exact ⟨act :: more, u, .cons ht hs hm, by simp [Lts.run, hs, hr], hu⟩

theorem Doomed.of_not_final (h : ¬ s.Final) : s.Doomed := ⟨[], s, trivial, rfl, h⟩

/-- The loops that are still to begin may begin. -/
theorem doomed_of_settled (conns : List Nat)
    (h : ∀ entered late, s.entered ⊆ entered → (∀ conn ∈ conns, ∀ peer sig,
      s.node.stages.lookup conn = some (.running peer sig) → conn ∈ entered) →
      Doomed { s with entered, late }) : s.Doomed := by
  induction conns generalizing s with
  | nil => exact h s.entered s.late (fun _ hm => hm) nofun
  | cons conn conns ih =>
      by_cases hrun : ∃ peer sig, s.node.stages.lookup conn = some (.running peer sig) ∧ conn ∉ s.entered
      · obtain ⟨peer, sig, hl, hnew⟩ := hrun
        have henter : s.step (.enter conn) =
            some { s with entered := conn :: s.entered, late := s.late || s.returned } := by
          simp [step, hl, hnew]
        refine .of_step henter trivial (ih fun entered late hsub hall => ?_)
        refine h entered late (fun _ hm => hsub (List.mem_cons_of_mem _ hm)) fun c hc p sg hcl => ?_
        rcases List.mem_cons.mp hc with rfl | hc
        · exact hsub List.mem_cons_self
        · exact hall c hc p sg hcl
      · refine ih fun entered late hsub hall => h entered late hsub fun c hc p sg hcl => ?_
        rcases List.mem_cons.mp hc with rfl | hc
        · refine hsub (Classical.not_not.mp fun hnew => ?_)
          exact hrun ⟨p, sg, hcl, hnew⟩
        · exact hall c hc p sg hcl

/-- The first call may return. -/
theorem doomed_of_close (hc : s.node.stopping = .cleared)
    (h : ∀ entered late, s.entered ⊆ entered → ¬ Final { s with entered, late, returned := true }) :
    s.Doomed := by
  refine doomed_of_settled s.node.stages.keys fun entered late hsub hall => ?_
  have hsettled : Settled { s with entered, late } := by
    intro conn peer sig hl
    exact hall conn (AList.mem_keys.mp (AList.lookup_isSome.mp (by simp [hl]))) peer sig hl
  have hclose : step { s with entered, late } .close = some { s with entered, late, returned := true } := by
    simp [step, hc]
  exact .of_step hclose hsettled (.of_not_final (h entered late hsub))

theorem doomed_of_session {peer : PeerId} (hc : s.node.stopping = .cleared)
    (hp : peer ∈ s.node.sessions) : s.Doomed := by
  refine doomed_of_close hc fun entered late _ h => ?_
  have hempty := (h rfl).1
  simp only at hempty
  rw [hempty] at hp
  exact AList.notMem_empty peer hp

/-- A task that subscribes after the signal is not told any more. -/
theorem doomed_of_unsignalled {conn : Nat} {peer : PeerId} (hne : s.node.stopping ≠ .no)
    (hl : s.node.stages.lookup conn = some (.running peer false)) : s.Doomed := by
  have hend : ∀ {s : Lifetime}, s.node.stopping = .cleared → conn ∈ s.entered →
      s.node.stages.lookup conn = some (.running peer false) → s.Doomed := by
    intro s hc he hl
    refine doomed_of_close hc fun entered late hsub h => ?_
    cases (h rfl).2.1 conn (hsub he) peer false hl
  refine doomed_of_settled [conn] fun entered late _ hall => ?_
  have he := hall conn List.mem_cons_self peer false hl
  cases hst : s.node.stopping with
  | no => exact absurd hst hne
  | cleared => exact hend (s := { s with entered, late }) hst he hl
  | signalled =>
      have hclear : step { s with entered, late } .clear = some { s with
          node := { s.node with stopping := .cleared, sessions := ∅ }, entered, late } := by
        simp [step, Node.step, hst]
      exact .of_step hclear trivial (hend rfl he hl)

theorem doomed_of_late {conn : Nat} {peer : PeerId} {sig : Bool} (hr : s.returned)
    (hl : s.node.stages.lookup conn = some (.running peer sig)) (he : conn ∉ s.entered) :
    s.Doomed := by
  have henter : s.step (.enter conn) = some { s with entered := conn :: s.entered, late := true } := by
    simp [step, hl, he, hr]
  exact .of_step henter trivial (.of_not_final fun h => absurd (h hr).2.2 nofun)

theorem doomed_of_not_settled (hr : s.returned) (h : ¬ s.Settled) : s.Doomed := by
  simp only [Settled, not_forall] at h
  obtain ⟨conn, peer, sig, hl, he⟩ := h
  exact doomed_of_late hr hl he

/-- A connection that is opened after a call has returned may still be inserted. -/
theorem doomed_of_early (hr : s.returned) (hc : s.node.stopping ≠ .cleared) : s.Doomed := by
  obtain ⟨conn, hconn⟩ := Infinite.exists_notMem_finset s.node.stages.keys.toFinset
  have hnone : s.node.stages.lookup conn = none :=
    AList.lookup_eq_none.mpr fun h => hconn (List.mem_toFinset.mpr (AList.mem_keys.mp h))
  let peer : PeerId := samplePeer 0
  have hopened : s.step (.task (.opened conn)) =
      some { s with node := s.node.setStage conn .handshaking } := by
    simp [step, allowed, Node.step, hnone]
  have hshaken : ∀ {s : Lifetime}, s.node.stages.lookup conn = some .handshaking →
      s.step (.task (.shaken conn peer)) = some { s with node := s.node.setStage conn (.shaken peer) } := by
    intro s hl
    simp [step, allowed, Node.step, hl]
  have hinsert : ∀ {s : Lifetime}, s.node.stages.lookup conn = some (.shaken peer) →
      s.step (.task (.insert conn)) = some { s with
        node := { s.node.setStage conn (.inserted peer) with
          sessions := s.node.sessions.insert peer conn } } := by
    intro s hl
    simp [step, allowed, Node.step, hl]
  refine .of_step hopened trivial <| .of_step (hshaken ?_) trivial <| .of_step (hinsert ?_) hc <|
    .of_not_final fun h => ?_
  · simp [Node.setStage]
  · simp [Node.setStage]
  · have hempty := (h hr).1
    have hmem : peer ∈ s.node.sessions.insert peer conn := (AList.mem_insert _).mpr (.inl rfl)
    simp only [Node.setStage] at hempty
    rw [hempty] at hmem
    exact AList.notMem_empty peer hmem

theorem doomed_of_not_timely (hs : s.step act = some t) (ht : ¬ s.Timely act) : t.Doomed := by
  cases act with
  | enter conn => exact absurd trivial ht
  | signal => exact absurd trivial ht
  | clear => exact absurd trivial ht
  | call =>
      simp only [Timely, Classical.not_imp, not_and_or] at ht
      obtain ⟨hrun, ht⟩ := ht
      simp only [step, hrun, Bool.false_eq_true, if_false] at hs
      cases hs
      rcases ht with hne | hset
      · exact doomed_of_early rfl hne
      · exact doomed_of_not_settled rfl hset
  | close =>
      simp only [step] at hs
      split at hs
      · cases hs
        exact doomed_of_not_settled rfl ht
      · cases hs
  | task nact =>
      simp only [step] at hs
      split at hs
      · obtain ⟨node, hnode, rfl⟩ := Option.map_eq_some_iff.mp hs
        cases nact with
        | insert conn =>
            cases Node.step_moves hnode with
            | insert =>
                exact doomed_of_session (Classical.not_not.mp ht) ((AList.mem_insert _).mpr (.inl rfl))
        | start conn =>
            cases Node.step_moves hnode with
            | start => exact doomed_of_unsignalled ht (AList.lookup_insert _)
        | opened conn => exact absurd trivial ht
        | shaken conn peer => exact absurd trivial ht
        | failed conn => exact absurd trivial ht
        | exit conn reason => exact absurd trivial ht
        | signal => exact absurd trivial ht
        | clear => exact absurd trivial ht
      · cases hs

end Lifetime

end OmniMesh.Sdk
