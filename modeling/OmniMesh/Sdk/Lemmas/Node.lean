import OmniMesh.Sdk.Node

/-!
# Sessions and their loops
-/

namespace OmniMesh.Sdk
open OmniMesh.Core

def Stage.Live : Stage → Prop
  | .inserted _ | .running _ _ => True
  | _ => False

namespace Node

variable {s t : Node}

/-! ## What a step changes -/

/-- What a step can do, one rule for each action. -/
inductive Moves (s : Node) : NodeAct → Node → Prop
  | opened {conn} : s.stages.lookup conn = none →
      Moves s (.opened conn) (s.setStage conn .handshaking)
  | shaken {conn peer} : s.stages.lookup conn = some .handshaking →
      Moves s (.shaken conn peer) (s.setStage conn (.shaken peer))
  | failed {conn} : s.stages.lookup conn = some .handshaking →
      Moves s (.failed conn) (s.setStage conn .ended)
  | insert {conn peer} : s.stages.lookup conn = some (.shaken peer) →
      Moves s (.insert conn)
        { s.setStage conn (.inserted peer) with sessions := s.sessions.insert peer conn }
  | start {conn peer} : s.stages.lookup conn = some (.inserted peer) →
      Moves s (.start conn) (s.setStage conn (.running peer false))
  | exit {conn reason peer sig} : s.stages.lookup conn = some (.running peer sig) →
      s.exitEnabled conn sig reason → Moves s (.exit conn reason) (s.setStage conn .ended)
  | signal : s.stopping = .no →
      Moves s .signal { s with stopping := .signalled, stages := signalAll s.stages }
  | clear : s.stopping = .signalled → Moves s .clear { s with stopping := .cleared, sessions := ∅ }

theorem step_moves {act} (hs : s.step act = some t) : s.Moves act t := by
  cases act with
  | opened conn =>
      simp only [step] at hs
      split at hs
      · rename_i hl
        cases hs
        exact .opened hl
      · cases hs
  | shaken conn peer =>
      simp only [step] at hs
      split at hs
      · rename_i hl
        cases hs
        exact .shaken hl
      · cases hs
  | failed conn =>
      simp only [step] at hs
      split at hs
      · rename_i hl
        cases hs
        exact .failed hl
      · cases hs
  | insert conn =>
      simp only [step] at hs
      split at hs
      · rename_i peer hl
        cases hs
        exact .insert hl
      · cases hs
  | start conn =>
      simp only [step] at hs
      split at hs
      · rename_i peer hl
        cases hs
        exact .start hl
      · cases hs
  | exit conn reason =>
      simp only [step] at hs
      split at hs
      · rename_i peer sig hl
        split at hs
        · rename_i hen
          cases hs
          exact .exit hl hen
        · cases hs
      · cases hs
  | signal =>
      simp only [step] at hs
      split at hs
      · rename_i hno
        cases hs
        exact .signal hno
      · cases hs
  | clear =>
      simp only [step] at hs
      split at hs
      · rename_i hsignalled
        cases hs
        exact .clear hsignalled
      · cases hs

/-! ## Sessions of ended loops -/

/-- Every session in the map is of a live connection. -/
def Backed (s : Node) : Prop :=
  ∀ conn, s.Holds conn → ∃ stage, s.stages.lookup conn = some stage ∧ stage.Live

theorem lookup_signalAll (stages : Map Nat Stage) (conn : Nat) :
    (signalAll stages).lookup conn = (stages.lookup conn).map Stage.signalled :=
  List.dlookup_map₂ conn

theorem Stage.live_signalled {stage : Stage} (h : stage.Live) : stage.signalled.Live := by
  cases stage with
  | running => exact trivial
  | inserted => exact trivial
  | _ => exact h

theorem holds_iff {conn} : s.Holds conn ↔ (s.sessions.entries.any fun e => e.2 = conn) = true := by
  simp only [Holds, List.any_eq_true, decide_eq_true_eq]
  constructor
  · rintro ⟨peer, h⟩
    exact ⟨⟨peer, conn⟩, AList.mem_lookup_iff.mp h, rfl⟩
  · rintro ⟨⟨peer, conn⟩, h, rfl⟩
    exact ⟨peer, AList.mem_lookup_iff.mpr h⟩

theorem init_backed : Backed init := by
  rintro conn ⟨peer, h⟩
  cases h

theorem Backed.setStage {conn stage} (h : Backed s) (hfree : ¬ s.Holds conn) :
    Backed (s.setStage conn stage) := by
  intro conn' hc
  have hne : conn' ≠ conn := by
    rintro rfl
    exact hfree hc
  obtain ⟨stage', hl, hlive⟩ := h conn' hc
  exact ⟨stage', by rw [Node.setStage, AList.lookup_insert_ne hne]; exact hl, hlive⟩

theorem Backed.setStage_live {conn stage} (h : Backed s) (hlive : stage.Live) :
    Backed (s.setStage conn stage) := by
  intro conn' hc
  by_cases he : conn' = conn
  · subst he
    exact ⟨stage, AList.lookup_insert _, hlive⟩
  · obtain ⟨stage', hl, hlive'⟩ := h conn' hc
    exact ⟨stage', by rw [Node.setStage, AList.lookup_insert_ne he]; exact hl, hlive'⟩

theorem Backed.free {conn} (h : Backed s)
    (hl : ∀ stage, s.stages.lookup conn = some stage → ¬ stage.Live) : ¬ s.Holds conn := by
  intro hc
  obtain ⟨stage, hs, hlive⟩ := h conn hc
  exact hl stage hs hlive

/-- A connection that is not live goes on to any stage. -/
theorem Backed.advance {conn stage stage'} (h : Backed s) (hl : s.stages.lookup conn = some stage)
    (hdead : ¬ stage.Live) : Backed (s.setStage conn stage') := by
  refine h.setStage (h.free fun stage₀ hst => ?_)
  rw [hl] at hst
  cases hst
  exact hdead

theorem Backed.insert {conn peer} (h : Backed s) :
    Backed { s.setStage conn (.inserted peer) with sessions := s.sessions.insert peer conn } := by
  rintro conn' ⟨peer', hc⟩
  have hlive : Backed (s.setStage conn (.inserted peer)) := h.setStage_live trivial
  by_cases hp : peer' = peer
  · subst hp
    rw [AList.lookup_insert] at hc
    cases hc
    exact ⟨.inserted peer', AList.lookup_insert _, trivial⟩
  · rw [AList.lookup_insert_ne hp] at hc
    exact hlive conn' ⟨peer', hc⟩

theorem Backed.signal (h : Backed s) :
    Backed { s with stopping := .signalled, stages := signalAll s.stages } := by
  intro conn hc
  obtain ⟨stage, hl, hlive⟩ := h conn hc
  refine ⟨stage.signalled, ?_, Stage.live_signalled hlive⟩
  rw [lookup_signalAll, hl]
  rfl

/-- The write channel of a connection closes when the map no longer holds its sender. -/
theorem free_of_channelClosed {conn sig} (hen : s.exitEnabled conn sig .channelClosed) : ¬ s.Holds conn := by
  rw [exitEnabled, Bool.not_eq_true'] at hen
  rw [holds_iff, hen]
  exact Bool.false_ne_true

theorem Backed.step {act} (h : Backed s) (hfree : ∀ conn reason, act = .exit conn reason →
    reason = .channelClosed ∨ ¬ s.Holds conn) (hs : s.step act = some t) : Backed t := by
  cases step_moves hs with
  | opened hl =>
      apply h.setStage
      apply h.free
      simp [hl]
  | shaken hl => exact h.advance hl id
  | failed hl => exact h.advance hl id
  | insert => exact h.insert
  | start => exact h.setStage_live trivial
  | exit _ hen =>
      apply h.setStage
      rcases hfree _ _ rfl with rfl | hfree
      · exact free_of_channelClosed hen
      · exact hfree
  | signal => exact h.signal
  | clear =>
      rintro conn ⟨peer, hc⟩
      cases hc

theorem Backed.noDead (h : Backed s) : s.NoDead where
  ended conn hl := h.free fun stage hst => by rw [hl] at hst; cases hst; exact id
  backed peer hp := by
    obtain ⟨conn, hc⟩ := Option.isSome_iff_exists.mp (AList.lookup_isSome.mpr hp)
    have hne : s.stages.lookup conn ≠ some .ended := by
      intro hl
      obtain ⟨stage, hst, hlive⟩ := h conn ⟨peer, hc⟩
      rw [hl] at hst
      cases hst
      exact hlive
    simp only [writeTo, hc, if_neg hne]

/-! ## Connections that have been in the map -/

/-- The connection has been inserted, so it is not inserted again. -/
def Past (s : Node) (conn : ℕ) : Prop :=
  ∃ stage, s.stages.lookup conn = some stage ∧ (stage.Live ∨ stage = .ended)

theorem Past.step {act : NodeAct} {conn : ℕ} (h : s.Past conn)
    (hs : s.step act = some t) :
    t.Past conn ∧ ∀ peer, t.sessions.lookup peer = some conn → s.sessions.lookup peer = some conn := by
  obtain ⟨stage, hl, hpast⟩ := h
  have hset : ∀ {conn'} {stage' : Stage}, (conn = conn' → stage'.Live ∨ stage' = .ended) →
      (s.setStage conn' stage').Past conn := by
    intro conn' stage' hnew
    by_cases hc : conn = conn'
    · subst hc
      exact ⟨stage', AList.lookup_insert _, hnew rfl⟩
    · exact ⟨stage, (AList.lookup_insert_ne hc).trans hl, hpast⟩
  have hnot : ∀ {conn'} {stage' : Stage}, s.stages.lookup conn' = some stage' →
      ¬ (stage'.Live ∨ stage' = .ended) → conn ≠ conn' := by
    rintro conn' stage' hl' hnew rfl
    rw [hl] at hl'
    cases hl'
    exact hnew hpast
  cases step_moves hs with
  | opened hl' =>
      refine ⟨hset ?_, fun _ h => h⟩
      rintro rfl
      rw [hl] at hl'
      cases hl'
  | shaken hl' => exact ⟨hset fun hc => absurd hc (hnot hl' (by simp [Stage.Live])), fun _ h => h⟩
  | failed hl' => exact ⟨hset fun _ => .inr rfl, fun _ h => h⟩
  | @insert conn' peer hl' =>
      have hne := hnot hl' (by simp [Stage.Live])
      refine ⟨hset fun _ => .inl trivial, fun peer' hp => ?_⟩
      by_cases hpeer : peer' = peer
      · subst hpeer
        rw [AList.lookup_insert] at hp
        exact absurd (Option.some.inj hp).symm hne
      · rwa [AList.lookup_insert_ne hpeer] at hp
  | start hl' => exact ⟨hset fun _ => .inl trivial, fun _ h => h⟩
  | exit hl' _ => exact ⟨hset fun _ => .inr rfl, fun _ h => h⟩
  | signal _ =>
      refine ⟨⟨stage.signalled, ?_, ?_⟩, fun _ h => h⟩
      · rw [lookup_signalAll, hl]
        rfl
      · rcases hpast with hlive | rfl
        · exact .inl (Stage.live_signalled hlive)
        · exact .inr rfl
  | clear _ => exact ⟨⟨stage, hl, hpast⟩, fun _ h => by cases h⟩

theorem not_past_of_lookup {conn stage} (hl : s.stages.lookup conn = some stage)
    (hnew : ¬ (stage.Live ∨ stage = .ended)) : ¬ s.Past conn := by
  rintro ⟨stage', hl', hpast⟩
  rw [hl] at hl'
  cases hl'
  exact hnew hpast

/-- Each session in the map has been inserted, under one peer. -/
structure Owned (s : Node) : Prop where
  past : ∀ peer conn, s.sessions.lookup peer = some conn → s.Past conn
  peer : ∀ peer peer' conn, s.sessions.lookup peer = some conn → s.sessions.lookup peer' = some conn →
    peer' = peer

theorem Owned.keep (h : Owned s) (hpast : ∀ conn, s.Past conn → t.Past conn)
    (hsessions : t.sessions = s.sessions) : Owned t where
  past peer conn hl := hpast conn (h.past peer conn (hsessions ▸ hl))
  peer peer peer' conn hl hl' := h.peer peer peer' conn (hsessions ▸ hl) (hsessions ▸ hl')

theorem Owned.insert {conn peer} (h : Owned s) (hs : s.step (.insert conn) = some t)
    (hl : s.stages.lookup conn = some (.shaken peer)) (hsessions : t.sessions = s.sessions.insert peer conn)
    (hstage : t.stages.lookup conn = some (.inserted peer)) : Owned t := by
  have hnew : ¬ s.Past conn := not_past_of_lookup hl (by simp [Stage.Live])
  have hcases : ∀ {p c}, t.sessions.lookup p = some c →
      (p = peer ∧ c = conn) ∨ (c ≠ conn ∧ s.sessions.lookup p = some c) := by
    intro p c hp
    rw [hsessions] at hp
    by_cases hpeer : p = peer
    · subst hpeer
      rw [AList.lookup_insert] at hp
      exact .inl ⟨rfl, (Option.some.inj hp).symm⟩
    · rw [AList.lookup_insert_ne hpeer] at hp
      refine .inr ⟨?_, hp⟩
      rintro rfl
      exact hnew (h.past p c hp)
  constructor
  · intro p c hp
    rcases hcases hp with ⟨-, rfl⟩ | ⟨-, hold⟩
    · exact ⟨_, hstage, .inl trivial⟩
    · exact ((h.past p c hold).step hs).1
  · intro p p' c hp hp'
    rcases hcases hp with ⟨rfl, rfl⟩ | ⟨hne, hold⟩
    · rcases hcases hp' with ⟨rfl, -⟩ | ⟨hne, -⟩
      · rfl
      · exact absurd rfl hne
    · rcases hcases hp' with ⟨-, rfl⟩ | ⟨-, hold'⟩
      · exact absurd rfl hne
      · exact h.peer p p' c hold hold'

theorem Owned.step {act} (h : Owned s) (hs : s.step act = some t) : Owned t := by
  have hpast : ∀ conn, s.Past conn → t.Past conn := fun conn hp => (hp.step hs).1
  cases step_moves hs with
  | opened _ => exact h.keep hpast rfl
  | shaken _ => exact h.keep hpast rfl
  | failed _ => exact h.keep hpast rfl
  | insert hl => exact h.insert hs hl rfl (AList.lookup_insert _)
  | start _ => exact h.keep hpast rfl
  | exit _ _ => exact h.keep hpast rfl
  | signal _ => exact h.keep hpast rfl
  | clear _ =>
      constructor
      · intro _ _ hl
        cases hl
      · intro _ _ _ hl
        cases hl

end Node

end OmniMesh.Sdk
