import OmniMesh.Lib.Run
import OmniMesh.Sdk.Lemmas.Handshake
import OmniMesh.Sdk.Link

/-!
# Agreement on a handshake
-/

namespace OmniMesh.Sdk
open OmniMesh.Core OmniMesh.Crypto

theorem NoiseTransport.fresh_matching {K : Role → Cipher} {role : Role} {key key' : Option Key}
    {plaintext ciphertext : Bytes}
    (h : ((NoiseTransport.fresh role key).encrypt K plaintext).1 = .ok ciphertext) :
    ((NoiseTransport.fresh role.other key').decrypt K ciphertext).1 = .ok plaintext := by
  have hseal := (NoiseTransport.encrypt_cases (Prod.ext h rfl)).1
  rw [NoiseTransport.decrypt_sealed (p := plaintext)]
  simpa [NoiseTransport.fresh] using hseal

/-! ## What a call does with its script -/

namespace LinkEnd

variable {S : KeyScheme} {self other : LinkEnd} {recvs : List (Result (Option HsMessage))}
  {reply : Result (Option HsMessage)} {sends : List (Result Unit)} {e : OmniMeshError}

theorem initiator_no_room : self.shake S .initiator ⟨recvs, []⟩ = ⟨[], none⟩ := by
  rw [shake, performHandshake, handshakeLoop_eq, handshakeTurn]
  rfl

theorem initiator_waits : self.shake S .initiator ⟨[], .ok () :: sends⟩ = ⟨[.first self.payload], none⟩ := by
  rw [shake, performHandshake, handshakeLoop_eq, handshakeTurn]
  rfl

theorem initiator_fails
    (h : readPayload S self.version ⟨.initiator, self.seed, 1, none⟩ reply = .error e) :
    self.shake S .initiator ⟨reply :: recvs, .ok () :: sends⟩ = ⟨[.first self.payload], some (.error e)⟩ := by
  rw [shake, performHandshake, handshakeLoop_eq, handshakeTurn]
  simp only [LoopState.start, NoiseHandshake.withKeypair, NoiseHandshake.isFinished, NoiseHandshake.writeMessage]
  rw [h]
  rfl

section
variable (hv : self.version.major = other.version.major)
include hv

theorem initiator_reads :
    self.shake S .initiator ⟨.ok (some (.second other.seed other.payload)) :: recvs, .ok () :: sends⟩ =
      handshakeLoop S self.version self.localPeerId ⟨sends, [.first self.payload],
        ⟨.initiator, self.seed, 2, some (S.x25519 other.seed)⟩, some other.localPeerId, recvs⟩ := by
  rw [shake, performHandshake, handshakeLoop_eq, handshakeTurn]
  simp only [LoopState.start, NoiseHandshake.withKeypair, NoiseHandshake.isFinished, NoiseHandshake.writeMessage]
  rw [payload, readPayload_serialized rfl (beq_iff_eq.mpr hv)]
  rfl

theorem initiator_no_room_again :
    self.shake S .initiator ⟨.ok (some (.second other.seed other.payload)) :: recvs, [.ok ()]⟩ =
      ⟨[.first self.payload], none⟩ := by
  rw [initiator_reads hv, handshakeLoop_eq, handshakeTurn]
  rfl

theorem initiator_finishes :
    self.shake S .initiator
        ⟨.ok (some (.second other.seed other.payload)) :: recvs, .ok () :: .ok () :: sends⟩ =
      ⟨[.first self.payload, .third self.seed self.payload],
        some (.ok (.fresh .initiator (some (S.x25519 other.seed)), other.localPeerId))⟩ := by
  rw [initiator_reads hv, handshakeLoop_eq, handshakeTurn]
  rfl

theorem responder_no_room :
    self.shake S .responder ⟨.ok (some (.first other.payload)) :: recvs, []⟩ = ⟨[], none⟩ := by
  rw [shake, performHandshake, handshakeLoop_eq, handshakeTurn]
  simp only [LoopState.start, NoiseHandshake.withKeypair, NoiseHandshake.isFinished]
  rw [payload, readPayload_serialized rfl (beq_iff_eq.mpr hv)]
  rfl

theorem responder_reads :
    self.shake S .responder ⟨.ok (some (.first other.payload)) :: recvs, .ok () :: sends⟩ =
      handshakeLoop S self.version self.localPeerId ⟨sends, [.second self.seed self.payload],
        ⟨.responder, self.seed, 2, none⟩, some other.localPeerId, recvs⟩ := by
  rw [shake, performHandshake, handshakeLoop_eq, handshakeTurn]
  simp only [LoopState.start, NoiseHandshake.withKeypair, NoiseHandshake.isFinished]
  rw [payload, readPayload_serialized rfl (beq_iff_eq.mpr hv)]
  rfl

theorem responder_waits_again :
    self.shake S .responder ⟨[.ok (some (.first other.payload))], .ok () :: sends⟩ =
      ⟨[.second self.seed self.payload], none⟩ := by
  rw [responder_reads hv, handshakeLoop_eq, handshakeTurn]
  rfl

theorem responder_finishes :
    self.shake S .responder ⟨.ok (some (.first other.payload)) ::
        .ok (some (.third other.seed other.payload)) :: recvs, .ok () :: sends⟩ =
      ⟨[.second self.seed self.payload],
        some (.ok (.fresh .responder (some (S.x25519 other.seed)), other.localPeerId))⟩ := by
  rw [responder_reads hv, handshakeLoop_eq, handshakeTurn]
  simp only [NoiseHandshake.isFinished]
  rw [payload, readPayload_serialized rfl (beq_iff_eq.mpr hv)]
  rfl

end

theorem responder_waits : self.shake S .responder ⟨[], sends⟩ = ⟨[], none⟩ := by
  rw [shake, performHandshake, handshakeLoop_eq, handshakeTurn]
  rfl

theorem responder_refuses (hv : self.version.major ≠ other.version.major) :
    ∃ e, self.shake S .responder ⟨.ok (some (.first other.payload)) :: recvs, sends⟩ =
      ⟨[], some (.error e)⟩ := by
  refine ⟨.protocolMismatch self.version.toString other.version.toString, ?_⟩
  rw [shake, performHandshake, handshakeLoop_eq, handshakeTurn]
  simp only [LoopState.start, NoiseHandshake.withKeypair, NoiseHandshake.isFinished]
  rw [payload, readPayload_mismatch rfl (beq_eq_false_iff_ne.mpr hv)]
  rfl

theorem initiator_refused (h : endsStream reply) :
    ∃ e, self.shake S .initiator ⟨reply :: recvs, .ok () :: sends⟩ =
      ⟨[.first self.payload], some (.error e)⟩ := by
  rcases reply with e | _ | message
  · exact ⟨e, initiator_fails rfl⟩
  · exact ⟨_, initiator_fails rfl⟩
  · cases h

end LinkEnd

namespace Link

variable {S : KeyScheme} {ends : Role → LinkEnd} {link link' : Link} {role : Role} {act : LinkAct}

/-- What can happen on the connection. -/
inductive Moves (S : KeyScheme) (ends : Role → LinkEnd) (link : Link) : LinkAct → Link → Prop
  | accept {role : Role} : (link.outcome S ends role).result = none →
      (link role).sends.length ≤ (link.outcome S ends role).sent.length →
      Moves S ends link (.accept role)
        (Function.update link role { link role with sends := (link role).sends ++ [.ok ()] })
  | deliver {role : Role} {message : HsMessage} : (link.outcome S ends role).result = none →
      (link.outcome S ends role.other).sent[(link role).recvs.length]? = some message →
      Moves S ends link (.deliver role) (Function.update link role { link role with
        recvs := (link role).recvs ++ [.ok (some message)] })
  | close {role : Role} {last : Result (Option HsMessage)} {e : OmniMeshError} :
      (link.outcome S ends role).result = none →
      (link.outcome S ends role.other).result = some (.error e) →
      (link role).recvs.length = (link.outcome S ends role.other).sent.length → endsStream last →
      Moves S ends link (.close role last)
        (Function.update link role { link role with recvs := (link role).recvs ++ [last] })

theorem step_eq_some : link.step S ends act = some link' ↔ Moves S ends link act link' := by
  constructor
  · intro hs
    simp only [step] at hs
    split at hs
    · cases hs
    · rename_i hpending
      have hpending := Option.not_isSome_iff_eq_none.mp hpending
      cases act with
      | accept role =>
          obtain ⟨hroom, hs⟩ := Option.ite_none_right_eq_some.mp hs
          cases hs
          exact .accept hpending hroom
      | deliver role =>
          simp only at hs
          split at hs
          · cases hs
          · rename_i hmessage
            cases hs
            exact .deliver hpending hmessage
      | close role last =>
          simp only at hs
          split at hs
          · rename_i he
            obtain ⟨hguard, hs⟩ := Option.ite_none_right_eq_some.mp hs
            cases hs
            exact .close hpending he hguard.1 hguard.2
          · cases hs
  · intro hm
    cases hm with
    | accept hpending hroom => simp [step, LinkAct.role, hpending, hroom]
    | deliver hpending hmessage => simp [step, LinkAct.role, hpending, hmessage]
    | close hpending he hlength hlast => simp [step, LinkAct.role, hpending, he, hlength, hlast]

theorem Settled.not_moves (h : link.Settled S ends) : ¬ Moves S ends link act link' := by
  intro hm
  have hs := step_eq_some.mpr hm
  rw [h act] at hs
  cases hs

theorem settled_or_step : link.Settled S ends ∨ ∃ act link', link.step S ends act = some link' := by
  by_cases h : link.Settled S ends
  · exact .inl h
  · obtain ⟨act, hact⟩ := not_forall.mp h
    exact .inr ⟨act, Option.ne_none_iff_exists'.mp hact⟩

/-! ## Equal major versions -/

/-- The messages that an end has to send. -/
def honest (ends : Role → LinkEnd) : Role → List HsMessage
  | .initiator => [.first (ends .initiator).payload, .third (ends .initiator).seed (ends .initiator).payload]
  | .responder => [.second (ends .responder).seed (ends .responder).payload]

/-- An end that was given room for `n` messages and the first `k` of the other end. -/
def given (ends : Role → LinkEnd) (role : Role) (n k : ℕ) : Script where
  recvs := ((honest ends role.other).take k).map fun message => .ok (some message)
  sends := List.replicate n (.ok ())

/-- The initiator sends one message before it reads. -/
def lead : Role → ℕ
  | .initiator => 1
  | .responder => 0

/-- How far an honest call is: it has sent what it could, and returns once it has sent and read
everything. -/
theorem shake_given (hv : (ends .initiator).version.major = (ends .responder).version.major) {n k : ℕ}
    (hk : k ≤ (honest ends role.other).length) :
    (ends role).shake S role (given ends role n k) =
      ⟨(honest ends role).take (min n (k + lead role)),
        if (honest ends role).length ≤ n ∧ k = (honest ends role.other).length then
          some (.ok (.fresh role (some (S.x25519 (ends role.other).seed)), (ends role.other).localPeerId))
        else none⟩ := by
  cases role with
  | initiator =>
      obtain rfl | rfl : k = 0 ∨ k = 1 := Nat.le_one_iff_eq_zero_or_eq_one.mp hk
      · rcases n with _ | n
        · exact LinkEnd.initiator_no_room
        · refine LinkEnd.initiator_waits.trans ?_
          simp [honest, lead, Role.other]
      · rcases n with _ | _ | n
        · exact LinkEnd.initiator_no_room
        · exact LinkEnd.initiator_no_room_again hv
        · refine (LinkEnd.initiator_finishes hv).trans ?_
          simp [honest, lead, Role.other]
  | responder =>
      rcases k with _ | _ | k
      · refine LinkEnd.responder_waits.trans ?_
        simp [honest, lead, Role.other]
      · rcases n with _ | n
        · exact LinkEnd.responder_no_room hv.symm
        · refine (LinkEnd.responder_waits_again hv.symm).trans ?_
          simp [honest, lead, Role.other]
      · have hk : k + 2 ≤ 2 := hk
        obtain rfl : k = 0 := by omega
        rcases n with _ | n
        · exact LinkEnd.responder_no_room hv.symm
        · refine (LinkEnd.responder_finishes hv.symm).trans ?_
          simp [honest, lead, Role.other, List.take_of_length_le]

theorem given_accept {n k : ℕ} : { given ends role n k with
    sends := (given ends role n k).sends ++ [.ok ()] } = given ends role (n + 1) k := by
  simp only [given, List.replicate_succ']

theorem given_deliver {n k : ℕ} {message : HsMessage} (h : (honest ends role.other)[k]? = some message) :
    { given ends role n k with recvs := (given ends role n k).recvs ++ [.ok (some message)] } =
      given ends role n (k + 1) := by
  simp only [given, List.take_add_one, h, Option.toList_some, List.map_append, List.map_cons, List.map_nil]

theorem given_recvs_length {n k : ℕ} (hk : k ≤ (honest ends role.other).length) :
    (given ends role n k).recvs.length = k := by
  simpa [given] using hk

/-- Both ends are on their way: each has heard a part of what the other has sent. -/
structure Agreeing (ends : Role → LinkEnd) (room heard : Role → ℕ) (link : Link) : Prop where
  script : ∀ role, link role = given ends role (room role) (heard role)
  initiator : heard .initiator ≤ 1 ∧ heard .initiator ≤ room .responder ∧ heard .initiator ≤ heard .responder
  responder : heard .responder ≤ 2 ∧ heard .responder ≤ room .initiator ∧
    heard .responder ≤ heard .initiator + 1
  room_le : ∀ role, room role ≤ 2

theorem init_agreeing : Agreeing ends (fun _ => 0) (fun _ => 0) init where
  script role := by simp [init, given]
  initiator := by omega
  responder := by omega
  room_le _ := Nat.zero_le _

section
variable {room heard : Role → ℕ}

theorem le_update_succ {f : Role → ℕ} {r : Role} : f r ≤ Function.update f role (f role + 1) r := by
  by_cases hr : r = role
  · subst hr
    rw [Function.update_self]
    exact Nat.le_succ _
  · rw [Function.update_of_ne hr]

theorem Agreeing.heard_le (h : Agreeing ends room heard link) (role : Role) :
    heard role ≤ (honest ends role.other).length := by
  cases role with
  | initiator => exact h.initiator.1
  | responder => exact h.responder.1

variable (hv : (ends .initiator).version.major = (ends .responder).version.major)
include hv

theorem Agreeing.outcome (h : Agreeing ends room heard link) (role : Role) : link.outcome S ends role =
    ⟨(honest ends role).take (min (room role) (heard role + lead role)),
      if (honest ends role).length ≤ room role ∧ heard role = (honest ends role.other).length then
        some (.ok (.fresh role (some (S.x25519 (ends role.other).seed)), (ends role.other).localPeerId))
      else none⟩ := by
  rw [Link.outcome, h.script role]
  exact shake_given hv (h.heard_le role)

theorem Agreeing.accept (h : Agreeing ends room heard link)
    (hpending : (link.outcome S ends role).result = none)
    (hroom : (link role).sends.length ≤ (link.outcome S ends role).sent.length) :
    Agreeing ends (Function.update room role (room role + 1)) heard
      (Function.update link role { link role with sends := (link role).sends ++ [.ok ()] }) := by
  constructor
  · intro r
    by_cases hr : r = role
    · subst hr
      rw [Function.update_self, Function.update_self, h.script r]
      exact given_accept
    · rw [Function.update_of_ne hr, Function.update_of_ne hr]
      exact h.script r
  · exact ⟨h.initiator.1, h.initiator.2.1.trans le_update_succ, h.initiator.2.2⟩
  · exact ⟨h.responder.1, h.responder.2.1.trans le_update_succ, h.responder.2.2⟩
  · intro r
    by_cases hr : r = role
    · subst hr
      rw [h.outcome hv] at hpending hroom
      rw [Function.update_self]
      have hfull := h.room_le r
      cases r with
      | initiator =>
          simp [h.script, given, honest, lead, Role.other] at hpending hroom
          have := h.initiator
          omega
      | responder =>
          simp [h.script, given, honest, lead, Role.other] at hpending hroom
          omega
    · rw [Function.update_of_ne hr]
      exact h.room_le r

theorem Agreeing.deliver {message : HsMessage} (h : Agreeing ends room heard link)
    (hmessage : (link.outcome S ends role.other).sent[(link role).recvs.length]? = some message) :
    Agreeing ends room (Function.update heard role (heard role + 1))
      (Function.update link role { link role with recvs := (link role).recvs ++ [.ok (some message)] }) := by
  rw [h.outcome hv, h.script role, given_recvs_length (h.heard_le role), List.getElem?_take] at hmessage
  obtain ⟨hlt, hmessage⟩ := Option.ite_none_right_eq_some.mp hmessage
  have hlength := (List.getElem?_eq_some_iff.mp hmessage).1
  constructor
  · intro r
    by_cases hr : r = role
    · subst hr
      rw [Function.update_self, Function.update_self, h.script r]
      exact given_deliver hmessage
    · rw [Function.update_of_ne hr, Function.update_of_ne hr]
      exact h.script r
  · have := h.initiator
    cases role <;> simp [honest, lead, Role.other] at hlt hlength ⊢ <;> omega
  · have := h.responder
    cases role <;> simp [honest, lead, Role.other] at hlt hlength ⊢ <;> omega
  · exact h.room_le

theorem Agreeing.step (h : Agreeing ends room heard link) (hs : link.step S ends act = some link') :
    ∃ room' heard', Agreeing ends room' heard' link' := by
  cases step_eq_some.mp hs with
  | accept hpending hroom => exact ⟨_, _, h.accept hv hpending hroom⟩
  | deliver _ hmessage => exact ⟨_, _, h.deliver hv hmessage⟩
  | close _ he =>
      rw [h.outcome hv] at he
      split at he
      · cases he
      · cases he

/-- On a settled connection a call that has not returned lacks neither room nor a message. -/
theorem Agreeing.stalled (h : Agreeing ends room heard link) (hs : link.Settled S ends) (role : Role) :
    ((honest ends role).length ≤ room role ∧ heard role = (honest ends role.other).length) ∨
    ((link.outcome S ends role).sent.length < room role ∧
      (link.outcome S ends role.other).sent.length ≤ heard role) := by
  by_cases hret : (honest ends role).length ≤ room role ∧ heard role = (honest ends role.other).length
  · exact .inl hret
  · have hpending : (link.outcome S ends role).result = none := by
      rw [h.outcome hv]
      exact if_neg hret
    refine .inr ⟨Nat.lt_of_not_le fun hle => ?_, Nat.le_of_not_lt fun hlt => ?_⟩
    · refine hs.not_moves (.accept hpending ?_)
      rw [h.script role, given, List.length_replicate]
      exact hle
    · have hheard : (link role).recvs.length = heard role := by
        rw [h.script role]
        exact given_recvs_length (h.heard_le role)
      rw [← hheard] at hlt
      exact hs.not_moves (.deliver hpending (List.getElem?_eq_getElem hlt))

theorem Agreeing.finished (h : Agreeing ends room heard link) (hs : link.Settled S ends) (role : Role) :
    (honest ends role).length ≤ room role ∧ heard role = (honest ends role.other).length := by
  have hi := h.initiator
  have hr := h.responder
  have hstalled := h.stalled hv hs .initiator
  have hstalled' := h.stalled hv hs .responder
  rw [h.outcome hv, h.outcome hv] at hstalled hstalled'
  simp [honest, lead, Role.other] at hstalled hstalled'
  cases role with
  | initiator =>
      simp [honest, Role.other]
      omega
  | responder =>
      simp [honest, Role.other]
      omega

theorem Agreeing.agreed (h : Agreeing ends room heard link) (hs : link.Settled S ends) :
    Agreed S ends link fun role => .fresh role (some (S.x25519 (ends role.other).seed)) := by
  have hsent : ∀ role, (link.outcome S ends role).sent = honest ends role := by
    intro role
    rw [h.outcome hv]
    have hfin := h.finished hv hs role
    refine List.take_of_length_le ?_
    cases role with
    | initiator => simp [honest, lead, Role.other] at hfin ⊢; omega
    | responder => simp [honest, lead, Role.other] at hfin ⊢; omega
  constructor
  · intro role
    rw [h.outcome hv role]
    exact if_pos (h.finished hv hs role)
  · rw [hsent, hsent]
    exact ⟨rfl, rfl⟩
  · intro role
    rw [h.script role, given, (h.finished hv hs role).2, List.take_length, hsent]
  · exact fun _ => rfl
  · exact fun K role plaintext ciphertext => NoiseTransport.fresh_matching

end

/-! ## Different major versions -/

/-- The responder answers the first message with an error, and the initiator hears nothing but the end of
the stream. -/
inductive Heard (ends : Role → LinkEnd) (room : ℕ) : (Role → List (Result (Option HsMessage))) → Prop
  | nothing {recvs} : recvs .initiator = [] → recvs .responder = [] → Heard ends room recvs
  | greeting {recvs} : 1 ≤ room → recvs .initiator = [] →
      recvs .responder = [.ok (some (.first (ends .initiator).payload))] → Heard ends room recvs
  | closing {recvs last} : 1 ≤ room → endsStream last → recvs .initiator = [last] →
      recvs .responder = [.ok (some (.first (ends .initiator).payload))] → Heard ends room recvs

theorem Heard.mono {n m : ℕ} {recvs : Role → List (Result (Option HsMessage))} (h : Heard ends n recvs)
    (hle : n ≤ m) : Heard ends m recvs := by
  cases h with
  | nothing hi hr => exact .nothing hi hr
  | greeting hroom hi hr => exact .greeting (hroom.trans hle) hi hr
  | closing hroom hlast hi hr => exact .closing (hroom.trans hle) hlast hi hr

structure Refusing (ends : Role → LinkEnd) (room : Role → ℕ) (link : Link) : Prop where
  sends : ∀ role, (link role).sends = List.replicate (room role) (.ok ())
  heard : Heard ends (room .initiator) fun role => (link role).recvs
  room_le : room .initiator ≤ 2 ∧ room .responder ≤ 1

theorem init_refusing : Refusing ends (fun _ => 0) init where
  sends _ := rfl
  heard := .nothing rfl rfl
  room_le := by omega

section
variable {room : Role → ℕ} {recvs : List (Result (Option HsMessage))}

theorem Refusing.outcome (h : Refusing ends room link) (hrecvs : (link role).recvs = recvs) :
    link.outcome S ends role = (ends role).shake S role ⟨recvs, List.replicate (room role) (.ok ())⟩ := by
  rw [Link.outcome, ← hrecvs, ← h.sends role]

theorem Refusing.greeted (h : Refusing ends room link) (hrecvs : (link .initiator).recvs = []) :
    link.outcome S ends .initiator = ⟨[HsMessage.first (ends .initiator).payload].take (room .initiator), none⟩ := by
  rw [h.outcome hrecvs]
  rcases room .initiator with _ | n
  · exact LinkEnd.initiator_no_room
  · exact LinkEnd.initiator_waits.trans (by simp)

theorem Refusing.closed {last} (h : Refusing ends room link) (hroom : 1 ≤ room .initiator)
    (hlast : endsStream last) (hrecvs : (link .initiator).recvs = [last]) :
    ∃ e, link.outcome S ends .initiator = ⟨[.first (ends .initiator).payload], some (.error e)⟩ := by
  obtain ⟨n, hn⟩ : ∃ n, room .initiator = n + 1 := Nat.exists_eq_add_of_le' hroom
  rw [h.outcome hrecvs, hn]
  exact LinkEnd.initiator_refused hlast

theorem Refusing.responder_waits (h : Refusing ends room link) (hrecvs : (link .responder).recvs = []) :
    link.outcome S ends .responder = ⟨[], none⟩ := by
  rw [h.outcome hrecvs]
  exact LinkEnd.responder_waits

theorem Refusing.hear (h : Refusing ends room link)
    (hheard : Heard ends (room .initiator) fun r =>
      (Function.update link role { link role with recvs := recvs } r).recvs) :
    Refusing ends room (Function.update link role { link role with recvs := recvs }) where
  sends r := by
    by_cases he : r = role
    · subst he
      rw [Function.update_self]
      exact h.sends r
    · rw [Function.update_of_ne he]
      exact h.sends r
  heard := hheard
  room_le := h.room_le

variable (hv : (ends .initiator).version.major ≠ (ends .responder).version.major)
include hv

theorem Refusing.refused  (h : Refusing ends room link)
    (hrecvs : (link .responder).recvs = [.ok (some (.first (ends .initiator).payload))]) :
    ∃ e, link.outcome S ends .responder = ⟨[], some (.error e)⟩ := by
  rw [h.outcome hrecvs]
  exact LinkEnd.responder_refuses hv.symm

/-- The initiator gets as far as its first message, the responder sends nothing. -/
theorem Refusing.sent_le  (h : Refusing ends room link) :
    (link.outcome S ends .initiator).sent.length ≤ 1 ∧ (link.outcome S ends .responder).sent = [] := by
  cases h.heard with
  | nothing hi hr =>
      rw [h.greeted hi, h.responder_waits hr]
      exact ⟨List.length_take_le' .., rfl⟩
  | greeting _ hi hr =>
      obtain ⟨e, he⟩ := h.refused (S := S) hv hr
      rw [h.greeted hi, he]
      exact ⟨List.length_take_le' .., rfl⟩
  | closing hroom hlast hi hr =>
      obtain ⟨e, he⟩ := h.refused (S := S) hv hr
      obtain ⟨e', he'⟩ := h.closed (S := S) hroom hlast hi
      rw [he, he']
      exact ⟨Nat.le_refl _, rfl⟩

theorem Refusing.accept  (h : Refusing ends room link)
    (hroom : (link role).sends.length ≤ (link.outcome S ends role).sent.length) :
    Refusing ends (Function.update room role (room role + 1))
      (Function.update link role { link role with sends := (link role).sends ++ [.ok ()] }) := by
  obtain ⟨hi, hr⟩ := h.sent_le (S := S) hv
  rw [h.sends role, List.length_replicate] at hroom
  constructor
  · intro r
    by_cases he : r = role
    · subst he
      simp only [Function.update_self, h.sends r, List.replicate_succ']
    · simp only [Function.update_of_ne he, h.sends r]
  · have hrecvs : (fun r => (Function.update link role
        { link role with sends := (link role).sends ++ [.ok ()] } r).recvs) = fun r => (link r).recvs := by
      funext r
      by_cases he : r = role
      · subst he
        rw [Function.update_self]
      · rw [Function.update_of_ne he]
    rw [hrecvs]
    exact h.heard.mono le_update_succ
  · have := h.room_le
    cases role with
    | initiator =>
        simp
        omega
    | responder =>
        simp [hr] at hroom
        simp
        omega

theorem Refusing.deliver {message : HsMessage}
     (h : Refusing ends room link) (hpending : (link.outcome S ends role).result = none)
    (hmessage : (link.outcome S ends role.other).sent[(link role).recvs.length]? = some message) :
    Refusing ends room (Function.update link role { link role with
      recvs := (link role).recvs ++ [.ok (some message)] }) := by
  cases role with
  | initiator =>
      rw [Role.other, (h.sent_le hv).2] at hmessage
      cases hmessage
  | responder =>
      cases h.heard with
      | nothing hi hr =>
          rw [Role.other, h.greeted hi, hr, List.getElem?_take] at hmessage
          obtain ⟨hroom, hmessage⟩ := Option.ite_none_right_eq_some.mp hmessage
          cases hmessage
          exact h.hear (.greeting hroom (by simpa using hi) (by simp [hr]))
      | greeting _ _ hr =>
          obtain ⟨e, he⟩ := h.refused (S := S) hv hr
          rw [he] at hpending
          cases hpending
      | closing _ _ _ hr =>
          obtain ⟨e, he⟩ := h.refused (S := S) hv hr
          rw [he] at hpending
          cases hpending

theorem Refusing.close {last : Result (Option HsMessage)} {e : OmniMeshError}
     (h : Refusing ends room link) (hpending : (link.outcome S ends role).result = none)
    (herror : (link.outcome S ends role.other).result = some (.error e)) (hlast : endsStream last) :
    Refusing ends room (Function.update link role { link role with recvs := (link role).recvs ++ [last] }) := by
  cases role with
  | initiator =>
      cases h.heard with
      | nothing _ hr =>
          rw [Role.other, h.responder_waits hr] at herror
          cases herror
      | greeting hroom hi hr => exact h.hear (.closing hroom hlast (by simp [hi]) (by simpa using hr))
      | closing hroom hended hi _ =>
          obtain ⟨e, he⟩ := h.closed (S := S) hroom hended hi
          rw [he] at hpending
          cases hpending
  | responder =>
      cases h.heard with
      | nothing hi _ =>
          rw [Role.other, h.greeted hi] at herror
          cases herror
      | greeting _ hi _ =>
          rw [Role.other, h.greeted hi] at herror
          cases herror
      | closing _ _ _ hr =>
          obtain ⟨e, he⟩ := h.refused (S := S) hv hr
          rw [he] at hpending
          cases hpending

theorem Refusing.step  (h : Refusing ends room link) (hs : link.step S ends act = some link') :
    ∃ room', Refusing ends room' link' := by
  cases step_eq_some.mp hs with
  | accept _ hroom => exact ⟨_, h.accept hv hroom⟩
  | deliver hpending hmessage => exact ⟨_, h.deliver hv hpending hmessage⟩
  | close hpending herror _ hlast => exact ⟨_, h.close hv hpending herror hlast⟩

theorem Refusing.result (h : Refusing ends room link) (role : Role) :
    (link.outcome S ends role).result = none ∨ ∃ e, (link.outcome S ends role).result = some (.error e) := by
  cases role with
  | initiator =>
      cases h.heard with
      | nothing hi _ => exact .inl (by rw [h.greeted hi])
      | greeting _ hi _ => exact .inl (by rw [h.greeted hi])
      | closing hroom hlast hi _ =>
          obtain ⟨e, he⟩ := h.closed (S := S) hroom hlast hi
          exact .inr ⟨e, by rw [he]⟩
  | responder =>
      cases h.heard with
      | nothing _ hr => exact .inl (by rw [h.responder_waits hr])
      | greeting _ _ hr =>
          obtain ⟨e, he⟩ := h.refused (S := S) hv hr
          exact .inr ⟨e, by rw [he]⟩
      | closing _ _ _ hr =>
          obtain ⟨e, he⟩ := h.refused (S := S) hv hr
          exact .inr ⟨e, by rw [he]⟩

theorem Refusing.settled (h : Refusing ends room link) (hs : link.Settled S ends) : link.Refused S ends := by
  intro role
  refine (h.result hv role).resolve_left fun hpending => ?_
  cases h.heard with
  | nothing hi hr =>
      have hinitiator : (link.outcome S ends .initiator).result = none := by rw [h.greeted hi]
      have hresponder : (link.outcome S ends .responder).result = none := by rw [h.responder_waits hr]
      rcases Nat.eq_zero_or_pos (room .initiator) with hzero | hpos
      · refine hs.not_moves (.accept hinitiator ?_)
        rw [h.sends, hzero]
        exact Nat.zero_le _
      · have hnext : (link.outcome S ends Role.responder.other).sent[(link .responder).recvs.length]? =
            some (.first (ends .initiator).payload) := by
          rw [Role.other, h.greeted hi, hr, List.getElem?_take]
          exact if_pos hpos
        exact hs.not_moves (.deliver hresponder hnext)
  | greeting hroom hi hr =>
      obtain ⟨e, he⟩ := h.refused (S := S) hv hr
      have hinitiator : (link.outcome S ends .initiator).result = none := by rw [h.greeted hi]
      have herror : (link.outcome S ends Role.initiator.other).result = some (.error e) := by
        rw [Role.other, he]
      have hlast : endsStream (.ok none) := rfl
      refine hs.not_moves (.close hinitiator herror ?_ hlast)
      rw [hi, Role.other, he]
      rfl
  | closing hroom hlast hi hr =>
      obtain ⟨e, he⟩ := h.refused (S := S) hv hr
      obtain ⟨e', he'⟩ := h.closed (S := S) hroom hlast hi
      cases role with
      | initiator =>
          rw [he'] at hpending
          cases hpending
      | responder =>
          rw [he] at hpending
          cases hpending

end

/-! ## Every run -/

/-- How much the connection has given to both ends. -/
def total (link : Link) : ℕ :=
  (link .initiator).recvs.length + (link .initiator).sends.length +
    ((link .responder).recvs.length + (link .responder).sends.length)

theorem total_lt (hs : link.step S ends act = some link') : link.total < link'.total := by
  cases step_eq_some.mp hs with
  | @accept role => cases role <;> simp [total]
  | @deliver role => cases role <;> simp [total]
  | @close role => cases role <;> simp [total]

/-- What every state of the connection is like. -/
def Running (ends : Role → LinkEnd) (link : Link) : Prop :=
  ((ends .initiator).version.major = (ends .responder).version.major →
    ∃ room heard, Agreeing ends room heard link) ∧
  ((ends .initiator).version.major ≠ (ends .responder).version.major → ∃ room, Refusing ends room link)

theorem init_running : Running ends init := ⟨fun _ => ⟨_, _, init_agreeing⟩, fun _ => ⟨_, init_refusing⟩⟩

theorem Running.step (h : Running ends link) (hs : link.step S ends act = some link') : Running ends link' := by
  constructor
  · intro hv
    obtain ⟨room, heard, hlink⟩ := h.1 hv
    exact hlink.step hv hs
  · intro hv
    obtain ⟨room, hlink⟩ := h.2 hv
    exact hlink.step hv hs

theorem Running.total_le (h : Running ends link) : link.total ≤ 7 := by
  by_cases hv : (ends .initiator).version.major = (ends .responder).version.major
  · obtain ⟨room, heard, hlink⟩ := h.1 hv
    have hlength : ∀ role, (link role).recvs.length = heard role ∧ (link role).sends.length = room role := by
      intro role
      rw [hlink.script role]
      exact ⟨given_recvs_length (hlink.heard_le role), List.length_replicate⟩
    have := hlength .initiator
    have := hlength .responder
    have := hlink.initiator
    have := hlink.responder
    have := hlink.room_le .initiator
    have := hlink.room_le .responder
    unfold total
    omega
  · obtain ⟨room, hlink⟩ := h.2 hv
    have hroom := hlink.room_le
    simp only [total, hlink.sends, List.length_replicate]
    cases hlink.heard with
    | nothing hi hr =>
        simp [hi, hr]
        omega
    | greeting _ hi hr =>
        simp [hi, hr]
        omega
    | closing _ _ hi hr =>
        simp [hi, hr]
        omega

theorem init_ends : Lts.Ends (step S ends) init :=
  Lts.ends_of_measure (I := Running ends) total 7 (fun _ h => h.total_le)
    (fun _ _ _ h hs => ⟨h.step hs, total_lt hs⟩) init_running

theorem run_running {acts : List LinkAct} (hr : Lts.run (step S ends) init acts = some link) :
    Running ends link :=
  Lts.run_invariant (I := Running ends) (fun _ _ _ h hs => h.step hs) init_running hr

end Link

end OmniMesh.Sdk
