import Mathlib.Data.List.Induction
import OmniMesh.Lib.Since
import OmniMesh.Sdk.Lemmas.Node

/-!
# What the actions of a node tell about its sessions
-/

namespace OmniMesh.Sdk
open OmniMesh.Core

def Stage.peer : Stage → Option PeerId
  | .shaken peer | .inserted peer | .running peer _ => some peer
  | .handshaking | .ended => none

theorem Stage.peer_signalled (stage : Stage) : stage.signalled.peer = stage.peer := by
  cases stage <;> rfl

namespace Node

variable {s t : Node} {acts more : List NodeAct} {act : NodeAct} {conn : Nat} {stage : Stage} {peer : PeerId}

/-! ## The peers of the connections -/

theorem peerOf_append : peerOf (acts ++ more) conn = (peerOf acts conn).or (peerOf more conn) :=
  List.findSome?_append

theorem peerOf_append_some (h : peerOf acts conn = some peer) : peerOf (acts ++ more) conn = some peer := by
  rw [peerOf_append, h, Option.some_or]

theorem peerOf_append_none (h : peerOf more conn = none) : peerOf (acts ++ more) conn = peerOf acts conn := by
  rw [peerOf_append, h, Option.or_none]

/-- The peer of a connection is the one of its handshake. -/
structure Named (s : Node) (acts : List NodeAct) : Prop where
  known : ∀ conn stage peer, s.stages.lookup conn = some stage → stage.peer = some peer →
    peerOf acts conn = some peer
  unknown : ∀ conn, s.stages.lookup conn = none ∨ s.stages.lookup conn = some .handshaking →
    peerOf acts conn = none
  held : ∀ conn peer, s.sessions.lookup peer = some conn → peerOf acts conn = some peer

theorem init_named : Named init [] where
  known _ _ _ h := by cases h
  unknown _ _ := rfl
  held _ _ h := by cases h

/-- One connection goes on, the others stay as they are. -/
theorem Named.setStage (h : Named s acts) (hact : ∀ conn', conn' ≠ conn → peerOf [act] conn' = none)
    (hknown : ∀ peer, stage.peer = some peer → peerOf (acts ++ [act]) conn = some peer)
    (hunknown : stage = .handshaking → peerOf (acts ++ [act]) conn = none) :
    Named (s.setStage conn stage) (acts ++ [act]) := by
  refine ⟨fun c stage' peer hl hp => ?_, fun c hl => ?_, fun c peer hl => peerOf_append_some (h.held c peer hl)⟩
  · by_cases hc : c = conn
    · subst hc
      rw [Node.setStage, AList.lookup_insert] at hl
      cases hl
      exact hknown peer hp
    · rw [Node.setStage, AList.lookup_insert_ne hc] at hl
      exact peerOf_append_some (h.known c stage' peer hl hp)
  · by_cases hc : c = conn
    · subst hc
      rw [Node.setStage, AList.lookup_insert] at hl
      exact hunknown (by simpa using hl)
    · rw [Node.setStage, AList.lookup_insert_ne hc] at hl
      rw [peerOf_append_none (hact c hc)]
      exact h.unknown c hl

/-- A connection goes on after its handshake, or ends. -/
theorem Named.advance {old : Stage} (h : Named s acts) (hact : ∀ conn', peerOf [act] conn' = none)
    (hl : s.stages.lookup conn = some old) (hpeer : ∀ peer, stage.peer = some peer → old.peer = some peer)
    (hstage : stage ≠ .handshaking) : Named (s.setStage conn stage) (acts ++ [act]) :=
  h.setStage (fun conn' _ => hact conn')
    (fun peer hp => peerOf_append_some (h.known conn old peer hl (hpeer peer hp)))
    fun hs => absurd hs hstage

theorem Named.step (h : Named s acts) (hs : s.step act = some t) : Named t (acts ++ [act]) := by
  cases step_moves hs with
  | opened hl =>
      refine h.setStage (fun _ _ => rfl) (fun _ h => by cases h) fun _ => ?_
      rw [peerOf_append_none rfl]
      exact h.unknown _ (.inl hl)
  | @shaken conn peer hl =>
      refine h.setStage (fun conn' hne => ?_) (fun peer' hp => ?_) fun h => by cases h
      · simp [peerOf, Ne.symm hne]
      · cases hp
        rw [peerOf_append, h.unknown conn (.inr hl)]
        simp [peerOf]
  | failed hl => exact h.advance (fun _ => rfl) hl (fun _ hp => by cases hp) (by simp)
  | @insert conn peer hl =>
      have hstage : Named (s.setStage conn (.inserted peer)) (acts ++ [.insert conn]) :=
        h.advance (fun _ => rfl) hl (fun _ hp => hp) (by simp)
      refine ⟨hstage.known, hstage.unknown, fun c p hp => ?_⟩
      by_cases hpeer : p = peer
      · subst hpeer
        rw [AList.lookup_insert] at hp
        cases hp
        exact hstage.known conn _ p (AList.lookup_insert _) rfl
      · rw [AList.lookup_insert_ne hpeer] at hp
        exact hstage.held c p hp
  | start hl => exact h.advance (fun _ => rfl) hl (fun _ hp => hp) (by simp)
  | exit hl _ => exact h.advance (fun _ => rfl) hl (fun _ hp => by cases hp) (by simp)
  | signal _ =>
      refine ⟨fun c stage peer hl hp => ?_, fun c hl => ?_, fun c peer hl => peerOf_append_some (h.held c peer hl)⟩
      · rw [lookup_signalAll, Option.map_eq_some_iff] at hl
        obtain ⟨stage, hl, rfl⟩ := hl
        exact peerOf_append_some (h.known c stage peer hl (stage.peer_signalled ▸ hp))
      · rw [peerOf_append_none rfl]
        apply h.unknown c
        rw [lookup_signalAll] at hl
        cases hlc : s.stages.lookup c with
        | none => exact .inl rfl
        | some stage => cases stage <;> simp_all [Stage.signalled]
  | clear _ =>
      refine ⟨fun c stage peer hl hp => peerOf_append_some (h.known c stage peer hl hp), fun c hl => ?_,
        fun _ _ hl => by cases hl⟩
      rw [peerOf_append_none rfl]
      exact h.unknown c hl

theorem run_named (hr : Lts.run Node.step .init acts = some s) : Named s acts :=
  Lts.run_history (fun _ _ _ _ h hs => h.step hs) init_named hr

/-! ## Sessions that were superseded -/

theorem Superseded.append (h : Superseded acts conn) : Superseded (acts ++ more) conn := by
  obtain ⟨earlier, later, rfl, h⟩ := h
  refine ⟨earlier, later ++ more, by simp, h.imp (List.mem_append_left _) ?_⟩
  rintro ⟨peer, conn', hp, hp', hi⟩
  exact ⟨peer, conn', peerOf_append_some hp, peerOf_append_some hp', List.mem_append_left _ hi⟩

/-- A session that has left the map does not come back. -/
theorem Past.free_run (hpast : s.Past conn) (hfree : ¬ s.Holds conn)
    (hr : Lts.run Node.step s more = some t) : ¬ t.Holds conn := by
  have hstep : ∀ (s : Node) (a : NodeAct) (t : Node), (s.Past conn ∧ ¬ s.Holds conn) → s.step a = some t →
      t.Past conn ∧ ¬ t.Holds conn := by
    rintro s a t ⟨hpast, hfree⟩ hs
    obtain ⟨hpast', hheld⟩ := hpast.step hs
    exact ⟨hpast', fun ⟨peer, hp⟩ => hfree ⟨peer, hheld peer hp⟩⟩
  exact (Lts.run_invariant (I := fun s => s.Past conn ∧ ¬ s.Holds conn) hstep ⟨hpast, hfree⟩ hr).2

theorem Past.run (hpast : s.Past conn) (hr : Lts.run Node.step s more = some t) : t.Past conn :=
  Lts.run_invariant (I := fun s => s.Past conn) (fun _ _ _ h hs => (h.step hs).1) hpast hr

/-- An action that takes a session out of the map does so for the rest of the run. -/
theorem Past.free_after {later : List NodeAct} (hpast : s.Past conn)
    (hr : Lts.run Node.step s (more ++ act :: later) = some t)
    (hfree : ∀ u v, Lts.run Node.step s more = some u → u.Past conn → u.step act = some v → ¬ v.Holds conn) :
    ¬ t.Holds conn := by
  obtain ⟨u, hu, hr⟩ := Lts.exists_of_run_append hr
  obtain ⟨v, hs, hr⟩ := Lts.run_cons hr
  have hpast' := hpast.run hu
  exact (hpast'.step hs).1.free_run (hfree u v hu hpast' hs) hr

/-- The insert of another connection of its peer takes a session out of the map. -/
theorem Past.not_holds_insert {conn' : Nat} (hpast : s.Past conn) (hnamed : Named s acts)
    (hs : s.step (.insert conn') = some t) (hp : peerOf (acts ++ more) conn = some peer)
    (hp' : peerOf (acts ++ more) conn' = some peer) : ¬ t.Holds conn := by
  -- a peer that is known by now is the one of the whole run
  have hsame : ∀ {c p}, peerOf acts c = some p → peerOf (acts ++ more) c = some peer → p = peer :=
    fun hl hw => Option.some.inj ((peerOf_append_some hl).symm.trans hw)
  cases step_moves hs with
  | @insert _ peer' hl =>
      have hpeer : peer' = peer := hsame (hnamed.known _ _ _ hl rfl) hp'
      rintro ⟨q, hq⟩
      by_cases hqp : q = peer'
      · subst hqp
        rw [AList.lookup_insert] at hq
        cases hq
        exact not_past_of_lookup hl (by simp [Stage.Live]) hpast
      · rw [AList.lookup_insert_ne hqp] at hq
        exact hqp ((hsame (hnamed.held conn q hq) hp).trans hpeer.symm)

theorem Superseded.free (h : Superseded acts conn) (hr : Lts.run Node.step .init acts = some s) :
    ¬ s.Holds conn := by
  obtain ⟨earlier, later, rfl, h⟩ := h
  obtain ⟨s₁, hr₁, hr⟩ := Lts.exists_of_run_append hr
  obtain ⟨s₂, hinsert, hr⟩ := Lts.run_cons hr
  have hpast : s₂.Past conn := by
    cases step_moves hinsert with
    | insert _ => exact ⟨_, AList.lookup_insert _, .inl trivial⟩
  rcases h with hclear | ⟨peer, conn', hp, hp', hmem⟩
  · obtain ⟨l, l', rfl⟩ := List.append_of_mem hclear
    refine hpast.free_after hr fun u v _ _ hs => ?_
    cases step_moves hs with
    | clear _ =>
        rintro ⟨peer, hp⟩
        cases hp
  · obtain ⟨l, l', rfl⟩ := List.append_of_mem hmem
    refine hpast.free_after hr fun u v hu hpast' hs => ?_
    have hnamed : Named u (earlier ++ .insert conn :: l) := by
      apply run_named
      rw [Lts.run_append, hr₁, Option.bind_some, Lts.run, hinsert]
      exact hu
    have hsplit : earlier ++ .insert conn :: (l ++ .insert conn' :: l') =
        (earlier ++ .insert conn :: l) ++ .insert conn' :: l' := by simp
    rw [hsplit] at hp hp'
    exact hpast'.not_holds_insert hnamed hs hp hp'

/-! ## Sessions that were not -/

def LiveFor (s : Node) (conn : Nat) (peer : PeerId) : Prop :=
  ∃ stage, s.stages.lookup conn = some stage ∧ stage.Live ∧ stage.peer = some peer

/-- A live connection is in the map as long as it was not superseded. -/
def Kept (s : Node) (acts : List NodeAct) : Prop :=
  ∀ conn peer, s.LiveFor conn peer →
    .insert conn ∈ acts ∧ (s.sessions.lookup peer = some conn ∨ Superseded acts conn)

theorem init_kept : Kept init [] := by
  rintro conn peer ⟨stage, hl, -⟩
  cases hl

theorem liveFor_setStage {conn' : Nat} (h : (s.setStage conn stage).LiveFor conn' peer) :
    (conn' = conn ∧ stage.Live ∧ stage.peer = some peer) ∨ (conn' ≠ conn ∧ s.LiveFor conn' peer) := by
  obtain ⟨stage', hl, hlive, hp⟩ := h
  by_cases hc : conn' = conn
  · subst hc
    rw [Node.setStage, AList.lookup_insert] at hl
    cases hl
    exact .inl ⟨rfl, hlive, hp⟩
  · rw [Node.setStage, AList.lookup_insert_ne hc] at hl
    exact .inr ⟨hc, stage', hl, hlive, hp⟩

theorem Kept.keep (h : Kept s acts) (hlive : ∀ conn peer, t.LiveFor conn peer → s.LiveFor conn peer)
    (hsessions : t.sessions = s.sessions) : Kept t (acts ++ [act]) := by
  intro conn peer ht
  obtain ⟨hmem, hheld⟩ := h conn peer (hlive conn peer ht)
  rw [hsessions]
  exact ⟨List.mem_append_left _ hmem, hheld.imp_right Superseded.append⟩

/-- A connection that is not live yet, or no longer. -/
theorem Kept.setStage (h : Kept s acts) (hdead : ¬ stage.Live) :
    Kept (s.setStage conn stage) (acts ++ [act]) := by
  refine h.keep (fun conn' peer ht => ?_) rfl
  rcases liveFor_setStage ht with ⟨-, hlive, -⟩ | ⟨-, hlive⟩
  · exact absurd hlive hdead
  · exact hlive

theorem Kept.insert (h : Kept s acts) (hnamed : Named s acts)
    (hl : s.stages.lookup conn = some (.shaken peer)) :
    Kept { s.setStage conn (.inserted peer) with sessions := s.sessions.insert peer conn }
      (acts ++ [.insert conn]) := by
  intro conn' peer' ht
  rcases liveFor_setStage (s := s) ht with ⟨rfl, -, hp⟩ | ⟨hne, hlive⟩
  · cases hp
    exact ⟨List.mem_append_right _ (List.mem_singleton_self _), .inl (AList.lookup_insert _)⟩
  · obtain ⟨hmem, hheld⟩ := h conn' peer' hlive
    refine ⟨List.mem_append_left _ hmem, ?_⟩
    rcases hheld with hheld | hover
    · by_cases hpeer : peer' = peer
      · -- the new session takes the place of this one
        subst hpeer
        obtain ⟨stage, hl', -, hp⟩ := hlive
        obtain ⟨earlier, later, rfl⟩ := List.append_of_mem hmem
        refine .inr ⟨earlier, later ++ [.insert conn], by simp, .inr ⟨peer', conn, ?_, ?_, by simp⟩⟩
        · exact peerOf_append_some (hnamed.known conn' stage peer' hl' hp)
        · exact peerOf_append_some (hnamed.known conn _ peer' hl rfl)
      · exact .inl ((AList.lookup_insert_ne hpeer).trans hheld)
    · exact .inr hover.append

theorem Kept.step (h : Kept s acts) (hnamed : Named s acts) (hs : s.step act = some t) :
    Kept t (acts ++ [act]) := by
  cases step_moves hs with
  | opened _ => exact h.setStage id
  | shaken _ => exact h.setStage id
  | failed _ => exact h.setStage id
  | insert hl => exact h.insert hnamed hl
  | start hl =>
      refine h.keep (fun conn' peer' ht => ?_) rfl
      rcases liveFor_setStage ht with ⟨rfl, -, hp⟩ | ⟨-, hlive⟩
      · exact ⟨_, hl, trivial, hp⟩
      · exact hlive
  | exit _ _ => exact h.setStage id
  | signal _ =>
      refine h.keep (fun conn peer ht => ?_) rfl
      obtain ⟨stage, hl, hlive, hp⟩ := ht
      rw [lookup_signalAll, Option.map_eq_some_iff] at hl
      obtain ⟨stage, hl, rfl⟩ := hl
      refine ⟨stage, hl, ?_, stage.peer_signalled ▸ hp⟩
      cases stage <;> exact hlive
  | clear _ =>
      intro conn peer ht
      obtain ⟨hmem, -⟩ := h conn peer ht
      obtain ⟨earlier, later, rfl⟩ := List.append_of_mem hmem
      exact ⟨List.mem_append_left _ hmem, .inr ⟨earlier, later ++ [.clear], by simp, .inl (by simp)⟩⟩

theorem run_kept (hr : Lts.run Node.step .init acts = some s) : Kept s acts := by
  have hstep : ∀ s a t acts, (Named s acts ∧ Kept s acts) → Node.step s a = some t →
      Named t (acts ++ [a]) ∧ Kept t (acts ++ [a]) := fun s a t acts h hs =>
    ⟨h.1.step hs, h.2.step h.1 hs⟩
  exact (Lts.run_history (I := fun s acts => Named s acts ∧ Kept s acts) hstep ⟨init_named, init_kept⟩ hr).2

/-! ## Loops that end after their sessions were superseded -/

theorem Released.of_append (h : Released (acts ++ more)) : Released acts := by
  rintro before conn reason after rfl
  exact h before conn reason (after ++ more) (by simp)

theorem released_concat (h : Released acts)
    (hact : ∀ conn reason, act = .exit conn reason → reason = .channelClosed ∨ Superseded acts conn) :
    Released (acts ++ [act]) := by
  intro before conn reason after heq
  rcases Since.concat_eq_append_cons heq with ⟨hlast, rfl⟩ | ⟨l, rfl, hacts⟩
  · obtain ⟨rfl, -⟩ := List.append_inj' heq rfl
    exact hact conn reason hlast.symm
  · exact h before conn reason l hacts

theorem released_of_no_exit (h : ∀ act ∈ acts, ∀ conn reason, act ≠ .exit conn reason) : Released acts := by
  rintro before conn reason after rfl
  exact absurd rfl (h (.exit conn reason) (by simp) conn reason)

theorem Released.backed (h : Released acts) (hr : Lts.run Node.step .init acts = some s) : Backed s := by
  induction acts using List.reverseRecOn generalizing s with
  | nil =>
      cases hr
      exact init_backed
  | append_singleton acts act ih =>
      obtain ⟨u, hu, hs⟩ := Lts.exists_of_run_append hr
      obtain ⟨s', hs, hr'⟩ := Lts.run_cons hs
      cases hr'
      refine (ih h.of_append hu).step (fun conn reason hact => ?_) hs
      subst hact
      exact (h acts conn reason [] rfl).imp_right fun hover => hover.free hu

theorem released_of_noDead (hr : Lts.run Node.step .init acts = some s)
    (h : ∀ before after t, acts = before ++ after → Lts.run Node.step .init before = some t → t.NoDead) :
    Released acts := by
  rintro before conn reason after rfl
  obtain ⟨u, hu, hr'⟩ := Lts.exists_of_run_append hr
  obtain ⟨t, hs, -⟩ := Lts.run_cons hr'
  have hrun : Lts.run Node.step .init (before ++ [.exit conn reason]) = some t := by
    rw [Lts.run_append, hu, Option.bind_some, Lts.run, hs]
    rfl
  have hdead := h (before ++ [.exit conn reason]) after t (by simp) hrun
  cases step_moves hs with
  | @exit _ _ peer sig hl _ =>
      obtain ⟨-, hheld | hover⟩ := run_kept hu conn peer ⟨_, hl, trivial, rfl⟩
      · exact absurd ⟨peer, hheld⟩ (hdead.ended conn (AList.lookup_insert _))
      · exact .inr hover

end Node

end OmniMesh.Sdk
