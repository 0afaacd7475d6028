import OmniMesh.Sdk.Handshake

/-!
# The loop of the handshake

What an accepted handshake has read, and how often the loop runs.
-/

namespace OmniMesh.Sdk
open OmniMesh.Core OmniMesh.Crypto

variable {S : KeyScheme} {current : ProtocolVersion} {hs hs' : NoiseHandshake}

theorem NoiseHandshake.readMessage_payload {message payload}
    (h : hs.readMessage S message = .ok (payload, hs')) : message.payload = payload := by
  unfold NoiseHandshake.readMessage at h
  split at h <;> cases h <;> rfl

theorem readPayload_ok {recv peerId} (h : readPayload S current hs recv = .ok (hs', peerId)) :
    ∃ message, recv = .ok (some message) ∧ hs.readMessage S message = .ok (message.payload, hs') ∧
      claimedPeerId message = some peerId := by
  unfold readPayload at h
  split at h
  · cases h
  · cases h
  · rename_i message
    split at h
    · cases h
    · rename_i payload hs₁ hread
      split at h
      · cases h
      · rename_i hp hd
        split at h <;> cases h
        cases NoiseHandshake.readMessage_payload hread
        exact ⟨message, rfl, hread, by rw [claimedPeerId, hd]⟩

theorem finishHandshake_ok {remote t peerId} (h : finishHandshake hs remote = .ok (t, peerId)) :
    hs.turn = 3 ∧ t = .fresh hs.role hs.remoteStatic ∧ remote = some peerId := by
  unfold finishHandshake NoiseHandshake.intoTransport at h
  split at h
  · cases h
  · rename_i t' ht
    split at ht
    · rename_i hfin
      cases ht
      split at h <;> cases h
      exact ⟨of_decide_eq_true hfin, rfl, rfl⟩
    · cases ht

theorem HandshakePayload.deserialize_serialize (p : HandshakePayload) :
    HandshakePayload.codec.deserialize (HandshakePayload.codec.serialize p) = .ok p :=
  Codec.deserialize_serialize
    ⟨⟨Codec.u16_fits _, Codec.u16_fits _, Codec.u16_fits _⟩, trivial⟩

theorem readPayload_serialized {message} {p : HandshakePayload}
    (hread : hs.readMessage S message = .ok (HandshakePayload.codec.serialize p, hs'))
    (hv : current.isCompatibleWith p.version) :
    readPayload S current hs (.ok (some message)) = .ok (hs', p.peerId) := by
  simp only [readPayload, hread, p.deserialize_serialize, hv, if_true]

theorem readPayload_mismatch {message} {p : HandshakePayload}
    (hread : hs.readMessage S message = .ok (HandshakePayload.codec.serialize p, hs'))
    (hv : current.isCompatibleWith p.version = false) :
    readPayload S current hs (.ok (some message)) =
      .error (.protocolMismatch current.toString p.version.toString) := by
  simp only [readPayload, hread, p.deserialize_serialize, hv, Bool.false_eq_true, if_false]

/-! ## One turn of the loop -/

/-- The rest of the call after an iteration. -/
def Turn.rest (S : KeyScheme) (current : ProtocolVersion) (lid : PeerId) : Turn → Outcome
  | .leave outcome => outcome
  | .again s => handshakeLoop S current lid s

theorem handshakeLoop_eq {lid : PeerId} {s : LoopState} :
    handshakeLoop S current lid s = (handshakeTurn S current lid s).rest S current lid := by
  rw [handshakeLoop]
  split
  · rename_i h
    rw [h]
    rfl
  · rename_i h
    rw [h]
    rfl

section
variable {lid : PeerId} {sends : List (Result Unit)} {sent : List HsMessage} {remote : Option PeerId}
  {recvs : List (Result (Option HsMessage))} {out : NoiseTransport × PeerId}

theorem initiator_turn (hrole : hs.role = .initiator) (hfin : hs.isFinished = false)
    (h : (handshakeLoop S current lid ⟨sends, sent, hs, remote, recvs⟩).result = some (.ok out)) :
    ∃ msg hs₁ sends' sent',
      hs.writeMessage (HandshakePayload.codec.serialize ⟨current, lid⟩) = .ok (msg, hs₁) ∧
      (finishHandshake hs₁ remote = .ok out ∨
        ∃ reply recvs' hs₂ peerId, recvs = reply :: recvs' ∧
          readPayload S current hs₁ reply = .ok (hs₂, peerId) ∧
          (handshakeLoop S current lid ⟨sends', sent', hs₂, some peerId, recvs'⟩).result =
            some (.ok out)) := by
  rw [handshakeLoop_eq, handshakeTurn] at h
  simp only [hfin, hrole, Bool.false_eq_true, if_false] at h
  split at h
  · cases h
  · cases h
  · cases h
  · rename_i msg hs₁ sends' hw
    refine ⟨msg, hs₁, sends', sent ++ [msg], hw, ?_⟩
    split at h
    · exact .inl (Option.some.inj h)
    · split at h
      · cases h
      · rename_i reply recvs'
        split at h
        · cases h
        · rename_i hs₂ peerId hread
          exact .inr ⟨reply, recvs', hs₂, peerId, rfl, hread, h⟩

theorem responder_turn (hrole : hs.role = .responder) (hfin : hs.isFinished = false)
    (h : (handshakeLoop S current lid ⟨sends, sent, hs, remote, recvs⟩).result = some (.ok out)) :
    ∃ incoming recvs' hs₁ peerId, recvs = incoming :: recvs' ∧
      readPayload S current hs incoming = .ok (hs₁, peerId) ∧
      (finishHandshake hs₁ (some peerId) = .ok out ∨
        ∃ msg hs₂ sends' sent',
          hs₁.writeMessage (HandshakePayload.codec.serialize ⟨current, lid⟩) = .ok (msg, hs₂) ∧
          (handshakeLoop S current lid ⟨sends', sent', hs₂, some peerId, recvs'⟩).result =
            some (.ok out)) := by
  rw [handshakeLoop_eq, handshakeTurn] at h
  simp only [hfin, hrole, Bool.false_eq_true, if_false] at h
  split at h
  · cases h
  · rename_i incoming recvs'
    split at h
    · cases h
    · rename_i hs₁ peerId hread
      refine ⟨incoming, recvs', hs₁, peerId, rfl, hread, ?_⟩
      split at h
      · exact .inl (Option.some.inj h)
      · split at h
        · cases h
        · cases h
        · cases h
        · rename_i msg hs₂ sends' hw
          exact .inr ⟨msg, hs₂, sends', sent ++ [msg], hw, h⟩

end

/-! ## The whole call -/

/-- The returned peer id is the one claimed in the message that shows the remote static key. -/
theorem performHandshake_ok {role seed lid script t peerId}
    (h : (performHandshake S current (.withKeypair role seed) lid script).result =
      some (.ok (t, peerId))) :
    ∃ message k, .ok (some message) ∈ script.recvs ∧ script.identityMessage role = some message ∧
      message.privateKey = some k ∧ t.remoteStatic = some (S.x25519 k) ∧
      claimedPeerId message = some peerId := by
  obtain ⟨recvs, sends⟩ := script
  unfold performHandshake NoiseHandshake.withKeypair at h
  cases role with
  | initiator =>
      obtain ⟨msg, hs₁, sends', sent', hw, h | h⟩ := initiator_turn rfl rfl h
      · cases hw
        cases (finishHandshake_ok h).1
      · obtain ⟨reply, recvs', hs₂, p, rfl, hread, h⟩ := h
        cases hw
        obtain ⟨message, rfl, hread, hclaim⟩ := readPayload_ok hread
        cases message <;> cases hread
        obtain ⟨msg', hs₃, sends'', sent'', hw, h | h⟩ := initiator_turn rfl rfl h
        · cases hw
          obtain ⟨-, rfl, hp⟩ := finishHandshake_ok h
          cases hp
          exact ⟨_, _, List.mem_cons_self, rfl, rfl, rfl, hclaim⟩
        · obtain ⟨reply, recvs'', hs₄, p', rfl, hread, h⟩ := h
          cases hw
          obtain ⟨message, rfl, hread, -⟩ := readPayload_ok hread
          cases message <;> cases hread
  | responder =>
      obtain ⟨incoming, recvs', hs₁, p, rfl, hread, h⟩ := responder_turn rfl rfl h
      obtain ⟨message, rfl, hread, -⟩ := readPayload_ok hread
      cases message <;> cases hread
      rcases h with h | ⟨msg, hs₂, sends', sent', hw, h⟩
      · cases (finishHandshake_ok h).1
      · cases hw
        obtain ⟨incoming, recvs'', hs₃, p', rfl, hread, h⟩ := responder_turn rfl rfl h
        obtain ⟨message, rfl, hread, hclaim⟩ := readPayload_ok hread
        cases message <;> cases hread
        rcases h with h | ⟨msg, hs₄, sends'', sent'', hw, h⟩
        · obtain ⟨-, rfl, hp⟩ := finishHandshake_ok h
          cases hp
          exact ⟨_, _, .tail _ List.mem_cons_self, rfl, rfl, rfl, hclaim⟩
        · cases hw

/-! ## Iterations -/

section
variable {hs hs' : NoiseHandshake} {payload : Bytes} {message : HsMessage}

theorem NoiseHandshake.writeMessage_turn (h : hs.writeMessage payload = .ok (message, hs')) :
    hs'.turn = hs.turn + 1 ∧ hs.turn < 3 ∧ (hs.role = .initiator ↔ hs.turn ≠ 1) := by
  unfold NoiseHandshake.writeMessage at h
  split at h <;> cases h <;> simp [*]

theorem NoiseHandshake.readMessage_turn {S : KeyScheme}
    (h : hs.readMessage S message = .ok (payload, hs')) :
    hs'.turn = hs.turn + 1 ∧ hs.turn < 3 ∧ (hs.role = .responder ↔ hs.turn ≠ 1) := by
  unfold NoiseHandshake.readMessage at h
  split at h <;> cases h <;> simp [*]

end

section
variable {S : KeyScheme} {current : ProtocolVersion} {lid : PeerId} {s t : LoopState} {outcome : Outcome}

theorem leavesWithin_eq {n : ℕ} (h : leavesWithin S current lid n s = some outcome) :
    outcome = handshakeLoop S current lid s := by
  induction n generalizing s with
  | zero => cases h
  | succ n ih =>
      rw [handshakeLoop_eq]
      simp only [leavesWithin] at h
      split at h
      · rename_i hturn
        cases h
        rw [hturn]
        rfl
      · rename_i hturn
        rw [hturn]
        exact ih h

/-- An iteration that does not leave the loop writes one message and reads one, at the beginning of the
handshake. -/
theorem turn_again (h : handshakeTurn S current lid s = .again t) :
    s.handshake.turn = 0 ∧ t.handshake.turn = 2 := by
  unfold handshakeTurn at h
  cases hfin : s.handshake.isFinished with
  | true =>
      simp only [hfin, if_true] at h
      cases h
  | false =>
      cases hrole : s.handshake.role with
      | initiator =>
          simp only [hfin, hrole, Bool.false_eq_true, if_false] at h
          split at h
          · cases h
          · cases h
          · cases h
          · rename_i hwrite _
            split at h
            · cases h
            · split at h
              · cases h
              · split at h
                · cases h
                · rename_i hread
                  cases h
                  obtain ⟨message, -, hread, -⟩ := readPayload_ok hread
                  have hw := NoiseHandshake.writeMessage_turn hwrite
                  have hr := NoiseHandshake.readMessage_turn hread
                  have hne := hw.2.2.mp hrole
                  simp only
                  omega
      | responder =>
          simp only [hfin, hrole, Bool.false_eq_true, if_false] at h
          split at h
          · cases h
          · split at h
            · cases h
            · rename_i hread
              split at h
              · cases h
              · split at h
                · cases h
                · cases h
                · cases h
                · rename_i hwrite _
                  cases h
                  obtain ⟨message, -, hread, -⟩ := readPayload_ok hread
                  have hw := NoiseHandshake.writeMessage_turn hwrite
                  have hr := NoiseHandshake.readMessage_turn hread
                  have hne := hr.2.2.mp hrole
                  simp only
                  omega

/-- The loop is left in its first or its second iteration. -/
theorem leavesWithin_two (s : LoopState) : ∃ outcome, leavesWithin S current lid 2 s = some outcome := by
  simp only [leavesWithin]
  split
  · exact ⟨_, rfl⟩
  · rename_i t ht
    split
    · exact ⟨_, rfl⟩
    · rename_i hagain
      have hturn := (turn_again ht).2
      rw [(turn_again hagain).1] at hturn
      cases hturn

end

/-! ## Accepted handshakes -/

namespace Accepted

theorem claim_eq (h : Accepted S) : h.claim = some h.peerId := by
  obtain ⟨message, k, -, hid, -, -, hclaim⟩ := performHandshake_ok h.ok
  rw [claim, hid]
  exact hclaim

/-- What the handshake does prove: the remote end holds the private key of the remote static key. -/
theorem remoteStatic_held (h : Accepted S) :
    ∃ k ∈ h.held, h.transport.remoteStatic = some (S.x25519 k) := by
  obtain ⟨message, k, hmem, -, hk, hstatic, -⟩ := performHandshake_ok h.ok
  exact ⟨k, h.speaks message k hmem hk, hstatic⟩

end Accepted

end OmniMesh.Sdk
