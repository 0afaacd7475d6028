import OmniMesh.Sdk.Handshake
import OmniMesh.Transport.Streams

/-!
# A session on the streams of a QUIC connection (`omnimesh-sdk/src/lib.rs`)

Both ends run `perform_handshake` before anything else is sent on the connection: the end that dials as the
initiator, the end that accepts as the responder.
-/

namespace OmniMesh.Sdk
open OmniMesh.Core OmniMesh.Crypto OmniMesh.Transport

/-- `perform_handshake` at the end that accepts, when its calls of `recv` have returned what the end has
received and `n` calls of `send` have returned `Ok(())`. `decode` reads a message from its bytes. -/
def handshakeAt (S : KeyScheme) (current : ProtocolVersion) (seed : Key) (localPeerId : PeerId)
    (decode : Bytes → HsMessage) (received : List Bytes) (n : ℕ) : Outcome :=
  performHandshake S current (.withKeypair .responder seed) localPeerId
    ⟨received.map fun bytes => .ok (some (decode bytes)), List.replicate n (.ok ())⟩

/-- The end that accepts calls `send` with the next message of its handshake, or after its end. -/
def RespondsOver (S : KeyScheme) (current : ProtocolVersion) (seed : Key) (localPeerId : PeerId)
    (decode : Bytes → HsMessage) (s : StreamPair) : StreamAct → Prop
  | .send .server _ =>
      let sent := (s.ends .server).sent.length
      let outcome := handshakeAt S current seed localPeerId decode (s.ends .server).received (sent + 1)
      outcome.sent.length = sent + 1 ∨ ∃ session, outcome.result = some (.ok session)
  | _ => True

end OmniMesh.Sdk
