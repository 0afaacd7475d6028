import OmniMesh.Sdk.Lemmas.Handshake
import OmniMesh.Sdk.OverQuic
import OmniMesh.Transport.Lemmas.Streams

/-!
# The first calls on a connection
-/

namespace OmniMesh.Sdk
open OmniMesh.Core OmniMesh.Crypto OmniMesh.Transport

variable {S : KeyScheme} {current : ProtocolVersion} {seed : Key} {localPeerId : PeerId}
  {decode : Bytes → HsMessage} {s t : StreamPair} {act : StreamAct}

theorem handshakeAt_nil (n : ℕ) : handshakeAt S current seed localPeerId decode [] n = ⟨[], none⟩ := by
  rw [handshakeAt, performHandshake, handshakeLoop_eq, handshakeTurn]
  rfl

/-- The end that accepts has read from a stream before it writes. -/
theorem RespondsOver.received_ne_nil {data : Bytes}
    (h : RespondsOver S current seed localPeerId decode s (.send .server data)) :
    (s.ends .server).received ≠ [] := by
  intro hnone
  simp only [RespondsOver, hnone, handshakeAt_nil] at h
  rcases h with hlen | ⟨session, hsession⟩
  · cases hlen
  · cases hsession

/-- The end that accepts has its stream from the other one. -/
structure Accepting (s : StreamPair) : Prop where
  paired : s.Paired
  opened : (s.ends .server).opened = 0
  stream : (s.ends .server).received ≠ [] → (s.ends .server).sendStream ≠ none

theorem Accepting.alone (h : Accepting s) (hact : RespondsOver S current seed localPeerId decode s act) :
    s.Alone act := by
  cases act with
  | send e data =>
      cases e with
      | client => exact fun _ => h.opened
      | server => exact fun hnone => absurd hnone (h.stream hact.received_ne_nil)
  | _ => trivial

theorem Accepting.step (h : Accepting s) (hact : RespondsOver S current seed localPeerId decode s act)
    (hs : s.step act = some t) : Accepting t := by
  refine ⟨h.paired.step (h.alone hact) hs, ?_, ?_⟩
  · cases StreamPair.step_moves hs with
    | @opens e data hw hn =>
        cases e with
        | client => exact h.opened
        | server => exact absurd hn (h.stream hact.received_ne_nil)
    | @again e => cases e <;> exact h.opened
    | @writes e => cases e <;> exact h.opened
    | @accepts e => cases e <;> exact h.opened
    | @reads e => cases e <;> exact h.opened
  · cases StreamPair.step_moves hs with
    | @opens e data hw hn =>
        cases e with
        | client => exact h.stream
        | server => exact absurd hn (h.stream hact.received_ne_nil)
    | @again e => cases e <;> exact h.stream
    | @writes e => cases e <;> exact h.stream
    | @accepts e =>
        cases e with
        | client => exact h.stream
        | server => exact fun _ hnone => by cases hnone
    | @reads e stream message rest hstream =>
        cases e with
        | client => exact h.stream
        | server =>
            intro _ hnone
            have hsend := (h.paired.wired.recv_eq .server).symm.trans hstream
            cases hsend.symm.trans hnone

end OmniMesh.Sdk
