import Mathlib.Data.List.Basic

/-!
# The error type (`omnimesh-core/src/error.rs`)
-/

namespace OmniMesh.Core

inductive OmniMeshError
  | identity (msg : String)
  | keyStore (msg : String)
  | keyRotation (msg : String)
  | crypto (msg : String)
  | handshake (msg : String)
  | keyDerivation (msg : String)
  | connection (msg : String)
  | transport (msg : String)
  | timeout (ms : UInt64)
  | address (msg : String)
  | noRoute (msg : String)
  | routing (msg : String)
  | discovery (msg : String)
  | service (msg : String)
  | config (msg : String)
  | storage (msg : String)
  | protocolMismatch (loc remote : String)
  | invalidPacket (msg : String)
  | io (msg : String)
  | serialization (msg : String)
  | internal (msg : String)
  deriving DecidableEq, Repr

/-- The `Display` text. -/
def OmniMeshError.toText : OmniMeshError → String
  | .identity msg => s!"identity error: {msg}"
  | .keyStore msg => s!"keystore error: {msg}"
  | .keyRotation msg => s!"key rotation error: {msg}"
  | .crypto msg => s!"crypto error: {msg}"
  | .handshake msg => s!"handshake error: {msg}"
  | .keyDerivation msg => s!"key derivation error: {msg}"
  | .connection msg => s!"connection error: {msg}"
  | .transport msg => s!"transport error: {msg}"
  | .timeout ms => s!"timeout after {ms}ms"
  | .address msg => s!"address error: {msg}"
  | .noRoute msg => s!"no route to peer: {msg}"
  | .routing msg => s!"routing error: {msg}"
  | .discovery msg => s!"discovery error: {msg}"
  | .service msg => s!"service error: {msg}"
  | .config msg => s!"config error: {msg}"
  | .storage msg => s!"storage error: {msg}"
  | .protocolMismatch loc remote => s!"protocol version mismatch: local={loc}, remote={remote}"
  | .invalidPacket msg => s!"invalid packet: {msg}"
  | .io msg => s!"I/O error: {msg}"
  | .serialization msg => s!"serialization error: {msg}"
  | .internal msg => s!"internal error: {msg}"

def OmniMeshError.isRetryable : OmniMeshError → Bool
  | .connection _ | .timeout _ | .transport _ | .discovery _ | .io _ => true
  | _ => false

abbrev Result (α : Type) := Except OmniMeshError α

end OmniMesh.Core
