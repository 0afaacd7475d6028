import OmniMesh.Sdk.Bounded
import OmniMesh.Sdk.Lemmas.Session

/-!
# Deadlock over a bounded connection

A session is deadlocked exactly when both loops wait in `conn.send`.
-/

namespace OmniMesh.Sdk
open OmniMesh.Core OmniMesh.Crypto

variable {K : Role → Cipher} {D : UpdateDecoder} {r : Role} {capacity : Nat}

theorem finishPacket_ping {env : Env} {t : NoiseTransport} {p c}
    (h : (K t.role).encrypt t.sendNonce p = .ok c) :
    finishPacket K D env t PacketType.ping p =
      (.ok (some (WirePacket.codec.serialize (.sealed PacketType.pong c))),
        { t with sendNonce := t.sendNonce + 1 }, [.pong p]) := by
  have hdata : PacketType.ping ≠ PacketType.data := by decide
  have hcontrol : PacketType.ping ≠ PacketType.control := by decide
  simp only [finishPacket, if_neg hdata, if_neg hcontrol, if_true, NoiseTransport.encrypt, h]

namespace End

variable {e e' : End} {act : EndAct}

theorem handle_isSome {ty p} (h : e.loop = .handling ty p) (env : Env) :
    (e.step K D (.handle env)).isSome := by
  simp only [step, h]
  split <;> rfl

theorem recv_isSome (h : e.loop = .idle) (bytes : Bytes) : (e.recv K bytes).isSome := by
  simp only [recv, h]
  split <;> rfl

theorem recv_not_waits {bytes} (h : e.recv K bytes = some e') : ¬ e'.Waits capacity := by
  rintro ⟨⟨packet, hsend⟩, -⟩
  unfold recv at h
  split at h
  · rename_i hidle
    split at h
    · cases h
      cases hsend
    · cases h
      cases hidle.symm.trans hsend
    · cases h
      cases hidle.symm.trans hsend
  · cases h

/-- A loop that waits after a step has waited before it, or has just gone into `conn.send`. -/
theorem Waits.before (hs : e.step K D act = some e') (h : e'.Waits capacity) :
    e.Waits capacity ∨ e.StartsSend act ∧ capacity ≤ e.wire.length := by
  obtain ⟨⟨packet, hsend⟩, hfull⟩ := h
  cases step_moves hs with
  | refused => exact .inl ⟨⟨packet, hsend⟩, hfull⟩
  | sealed => exact .inl ⟨⟨packet, hsend⟩, hfull⟩
  | enqueued => exact .inl ⟨⟨packet, hsend⟩, hfull⟩
  | cancelled => exact .inl ⟨⟨packet, hsend⟩, hfull⟩
  | popped => exact .inr ⟨trivial, hfull⟩
  | wrote => cases hsend
  | finished => cases hsend
  | replied hloop hseal =>
      have hlim := (K e.transport.role).encrypt_limit _ _ _ hseal
      refine .inr ⟨?_, hfull⟩
      simp only [StartsSend, hloop]
      exact ⟨trivial, hlim.1, hlim.2.1 ▸ hlim.2.2⟩

theorem StartsSend.waits (hstart : e.StartsSend act) (hs : e.step K D act = some e')
    (hfull : capacity ≤ e.wire.length) : e'.Waits capacity := by
  cases act with
  | pop =>
      cases step_moves hs with
      | popped => exact ⟨⟨_, rfl⟩, hfull⟩
  | handle env =>
      simp only [StartsSend] at hstart
      split at hstart
      · rename_i ty p hloop
        obtain ⟨rfl, hn, hlen⟩ := hstart
        obtain ⟨c, hc⟩ := (K e.transport.role).encrypt_ok _ _ hn hlen
        simp only [step, hloop, finishPacket_ping hc] at hs
        cases hs
        exact ⟨⟨_, rfl⟩, hfull⟩
      · exact hstart.elim
  | encrypt => exact hstart.elim
  | enqueue => exact hstart.elim
  | cancel => exact hstart.elim
  | write => exact hstart.elim

end End

namespace Session

variable {s t : Session}

theorem step_of_boundedStep {act} (h : s.boundedStep capacity K D act = some t) :
    s.step K D act = some t := by
  unfold boundedStep at h
  split at h
  · cases h
  · exact h

/-! ## Deadlocked sessions -/

theorem Deadlocked.not_handling (h : s.Deadlocked capacity K D) {ty p} :
    (s r).loop ≠ .handling ty p := by
  intro hloop
  have hnone := h.stuck (.own r (.handle ⟨fun _ => none, 0⟩)) rfl
  obtain ⟨e, he⟩ := Option.isSome_iff_exists.mp
    (End.handle_isSome (K := K) (D := D) hloop ⟨fun _ => none, 0⟩)
  simp [boundedStep, blocked, step, he] at hnone

theorem Deadlocked.full (h : s.Deadlocked capacity K D) {p} (hloop : (s r).loop = .sending p) :
    (s r).Waits capacity := by
  refine ⟨⟨p, hloop⟩, ?_⟩
  by_contra hroom
  have hnone := h.stuck (.own r .write) rfl
  simp [boundedStep, blocked, hroom, step, End.step, hloop] at hnone

/-- An idle loop has nothing to write and nothing to read. -/
theorem Deadlocked.starved (h : s.Deadlocked capacity K D) (hloop : (s r).loop = .idle) :
    (s r).queue = [] ∧ (s r.other).wire = [] := by
  constructor
  · cases hq : (s r).queue with
    | nil => rfl
    | cons packet queue =>
        have hnone := h.stuck (.own r .pop) rfl
        simp [boundedStep, blocked, step, End.step, hloop, hq] at hnone
  · cases hw : (s r.other).wire with
    | nil => rfl
    | cons packet wire =>
        have hnone := h.stuck (.recv r) rfl
        obtain ⟨e, he⟩ := Option.isSome_iff_exists.mp (End.recv_isSome (K := K) hloop packet.bytes)
        simp [boundedStep, blocked, step, hw, he] at hnone

theorem Deadlocked.waits (h : s.Deadlocked capacity K D) (hcap : 0 < capacity) (r : Role) :
    (s r).Waits capacity := by
  cases hloop : (s r).loop with
  | sending p => exact h.full hloop
  | handling ty p => exact absurd hloop h.not_handling
  | idle =>
      obtain ⟨hq, hw⟩ := h.starved hloop
      cases hother : (s r.other).loop with
      | handling ty p => exact absurd hother h.not_handling
      | sending p =>
          -- the other loop waits on a full channel, from which this one could read
          have hfull := (h.full hother).full
          rw [hw, List.length_nil] at hfull
          omega
      | idle =>
          obtain ⟨hq', hw'⟩ := h.starved hother
          rw [Role.other_other] at hw'
          obtain ⟨r', hr'⟩ := h.pending
          rcases Role.eq_or_eq_other r r' with rfl | rfl <;> simp_all

theorem deadlocked_of_waits (hcap : 0 < capacity) (h : ∀ r, (s r).Waits capacity) :
    s.Deadlocked capacity K D where
  pending := by
    refine ⟨.initiator, .inl fun hw => ?_⟩
    have hfull := (h .initiator).full
    rw [hw, List.length_nil] at hfull
    omega
  stuck := by
    intro act hact
    cases act with
    | recv r =>
        obtain ⟨p, hp⟩ := (h r).sending
        cases hw : (s r.other).wire <;> simp [boundedStep, blocked, step, hw, End.recv, hp]
    | own r act =>
        obtain ⟨p, hp⟩ := (h r).sending
        cases act with
        | pop => simp [boundedStep, blocked, step, End.step, hp]
        | write => simp [boundedStep, blocked, (h r).full]
        | handle env => simp [boundedStep, blocked, step, End.step, hp]
        | encrypt => cases hact
        | enqueue => cases hact
        | cancel => cases hact

/-! ## Runs -/

theorem not_waits_step {act} (h : ¬ ∀ r, (s r).Waits capacity) (hy : s.Yields capacity act)
    (hs : s.boundedStep capacity K D act = some t) : ¬ ∀ r, (t r).Waits capacity := by
  intro hw
  have hstep := step_of_boundedStep hs
  cases act with
  | own r act =>
      obtain ⟨e, he, rfl⟩ := Option.map_eq_some_iff.mp hstep
      have hr := hw r
      have hother := hw r.other
      rw [Function.update_self] at hr
      rw [Function.update_of_ne (Role.other_ne r)] at hother
      rcases hr.before he with hbefore | ⟨hstart, hfull⟩
      · refine h fun r' => ?_
        rcases Role.eq_or_eq_other r r' with rfl | rfl
        · exact hbefore
        · exact hother
      · exact hy hstart hfull hother
  | recv r =>
      simp only [step] at hstep
      split at hstep
      · cases hstep
      · obtain ⟨e, he, rfl⟩ := Option.map_eq_some_iff.mp hstep
        have hr := hw r
        rw [Function.update_of_ne (Role.ne_other r), Function.update_self] at hr
        exact End.recv_not_waits he hr

theorem waits_of_not_yields {act} (hy : ¬ s.Yields capacity act)
    (hs : s.boundedStep capacity K D act = some t) (r : Role) : (t r).Waits capacity := by
  have hstep := step_of_boundedStep hs
  cases act with
  | recv r' => exact absurd trivial hy
  | own r' act =>
      simp only [Yields, not_forall, not_not] at hy
      obtain ⟨hstart, hfull, hother⟩ := hy
      obtain ⟨e, he, rfl⟩ := Option.map_eq_some_iff.mp hstep
      rcases Role.eq_or_eq_other r' r with rfl | rfl
      · rw [Function.update_self]
        exact hstart.waits he hfull
      · rw [Function.update_of_ne (Role.other_ne r')]
        exact hother

end Session

/-! ## Two full channels -/

namespace End

variable {e : End} {n : Nat}

/-- The end has sealed and written `n` packets, none was read, and nothing is under way. -/
structure Rests (n : Nat) (e : End) : Prop where
  loop : e.loop = .idle
  queue : e.queue = []
  free : 0 ∉ e.held
  wire : e.wire.length = n
  nonce : e.transport.sendNonce = n

/-- The same with one more packet sealed, which the loop has taken from the queue. -/
structure Sends (n : Nat) (e : End) : Prop where
  loop : ∃ packet, e.loop = .sending packet
  queue : e.queue = []
  free : 0 ∉ e.held
  wire : e.wire.length = n
  nonce : e.transport.sendNonce = n + 1

/-- One task seals a probe, and the loop takes it. -/
def probeActs : List EndAct := [.encrypt 0 (.probingLoop 7), .enqueue 0, .pop]

theorem Rests.probe (h : e.Rests n) (hn : n < maxNonce) :
    ∃ e', Lts.run (End.step K D) e probeActs = some e' ∧ e'.Sends n := by
  have hlen : (Sender.probingLoop 7).plainBytes.length + 16 ≤ maxMessageLen := by decide
  obtain ⟨c, hc⟩ := (K e.transport.role).encrypt_ok _ _ (h.nonce ▸ hn) hlen
  simp only [probeActs, Lts.run, step, h.free, h.loop, h.queue, NoiseTransport.encrypt, hc, writeCapacity,
    AList.lookup_insert, if_false, List.length_nil, Nat.zero_lt_succ, if_true, List.nil_append,
    Option.bind_some, Option.some.injEq, exists_eq_left']
  exact ⟨⟨_, rfl⟩, rfl, by simp [AList.mem_erase], h.wire, congrArg (· + 1) h.nonce⟩

theorem Sends.write (h : e.Sends n) : ∃ e', e.step K D .write = some e' ∧ e'.Rests (n + 1) := by
  obtain ⟨packet, hloop⟩ := h.loop
  simp only [step, hloop, Option.some.injEq, exists_eq_left']
  refine ⟨rfl, h.queue, h.free, ?_, h.nonce⟩
  rw [List.length_append, h.wire, List.length_singleton]

end End

namespace Session

variable {s : Session} {n : Nat}

def fillRun (r : Role) : Nat → List SessionAct
  | 0 => []
  | n + 1 => fillRun r n ++ (End.probeActs.map (.own r) ++ [.own r .write])

/-- Each end fills its channel and takes one more packet from its queue. -/
def jamRun (capacity : Nat) : List SessionAct :=
  (fillRun .initiator capacity ++ End.probeActs.map (.own .initiator)) ++
    (fillRun .responder capacity ++ End.probeActs.map (.own .responder))

theorem boundedStep_own {act e} (hroom : s.blocked capacity (.own r act) = false)
    (he : (s r).step K D act = some e) :
    s.boundedStep capacity K D (.own r act) = some (Function.update s r e) := by
  simp [boundedStep, hroom, step, he]

theorem probe_run (capacity : Nat) (h : (s r).Rests n) (hn : n < maxNonce) :
    ∃ e, Lts.run (boundedStep capacity K D) s (End.probeActs.map (.own r)) =
      some (Function.update s r e) ∧ e.Sends n := by
  obtain ⟨e, he, hsends⟩ := h.probe (K := K) (D := D) hn
  obtain ⟨e₁, h₁, he⟩ := Lts.run_cons he
  obtain ⟨e₂, h₂, he⟩ := Lts.run_cons he
  obtain ⟨e₃, h₃, he⟩ := Lts.run_cons he
  cases he
  refine ⟨e, ?_, hsends⟩
  have hs₂ : (Function.update s r e₁ r).step K D (.enqueue 0) = some e₂ := by
    rw [Function.update_self]
    exact h₂
  have hs₃ : (Function.update s r e₂ r).step K D .pop = some e := by
    rw [Function.update_self]
    exact h₃
  simp only [End.probeActs, List.map, Lts.run, boundedStep_own rfl h₁, boundedStep_own rfl hs₂,
    boundedStep_own rfl hs₃, Option.bind_some, Function.update_idem]

theorem fill_run (h : (s r).Rests 0) (hn : n ≤ maxNonce) (hcap : n ≤ capacity) :
    ∃ e, Lts.run (boundedStep capacity K D) s (fillRun r n) = some (Function.update s r e) ∧
      e.Rests n := by
  induction n with
  | zero => exact ⟨s r, by rw [Function.update_eq_self]; rfl, h⟩
  | succ n ih =>
      obtain ⟨e, he, hrests⟩ := ih (Nat.le_of_succ_le hn) (Nat.le_of_succ_le hcap)
      rw [← Function.update_self r e s] at hrests
      obtain ⟨e₁, h₁, hsends⟩ := probe_run (K := K) (D := D) capacity hrests hn
      rw [Function.update_idem] at h₁
      have hroom : blocked capacity (Function.update s r e₁) (.own r .write) = false := by
        simp only [blocked, Function.update_self, hsends.wire, decide_eq_false_iff_not, Nat.not_le]
        exact hcap
      obtain ⟨e₂, h₂, hrests₂⟩ := hsends.write (K := K) (D := D)
      rw [← Function.update_self r e₁ s] at h₂
      refine ⟨e₂, ?_, hrests₂⟩
      simp only [fillRun, Lts.run_append, he, h₁, Option.bind_some, Lts.run, boundedStep_own hroom h₂,
        Function.update_idem]

theorem jam_run (h : (s r).Rests 0) (hcap : capacity < maxNonce) :
    ∃ e, Lts.run (boundedStep capacity K D) s (fillRun r capacity ++ End.probeActs.map (.own r)) =
      some (Function.update s r e) ∧ e.Waits capacity := by
  obtain ⟨e, he, hrests⟩ := fill_run (K := K) (D := D) h hcap.le le_rfl
  rw [← Function.update_self r e s] at hrests
  obtain ⟨e₁, h₁, hsends⟩ := probe_run (K := K) (D := D) capacity hrests hcap
  rw [Function.update_idem] at h₁
  exact ⟨e₁, by rw [Lts.run_append, he, Option.bind_some, h₁], hsends.loop, hsends.wire.ge⟩

theorem init_rests (remoteStatic : Role → Option Key) (r : Role) : (init remoteStatic r).Rests 0 :=
  ⟨rfl, rfl, List.not_mem_nil, rfl, rfl⟩

theorem jamRun_deadlocks (hpos : 0 < capacity) (hcap : capacity < maxNonce)
    (remoteStatic : Role → Option Key) :
    ∃ t, Lts.run (boundedStep capacity K D) (init remoteStatic) (jamRun capacity) = some t ∧
      t.Deadlocked capacity K D := by
  obtain ⟨e, he, hwaits⟩ := jam_run (K := K) (D := D) (init_rests remoteStatic .initiator) hcap
  have hrests : (Function.update (init remoteStatic) .initiator e .responder).Rests 0 :=
    init_rests remoteStatic .responder
  obtain ⟨e', he', hwaits'⟩ := jam_run (K := K) (D := D) hrests hcap
  refine ⟨_, by rw [jamRun, Lts.run_append, he, Option.bind_some, he'], ?_⟩
  refine deadlocked_of_waits hpos fun r => ?_
  cases r with
  | initiator => exact hwaits
  | responder => exact hwaits'

end Session

end OmniMesh.Sdk
