import OmniMesh.Sdk.Handshake

/-!
# Connecting to a peer (`omnimesh-sdk/src/lib.rs`)

`connect_addr` and the loop of `connect_peer` over the addresses that discovery has found. What lies
behind an address is an input: the dial never returns, fails, or yields a connection with its script.
-/

namespace OmniMesh.Sdk
open OmniMesh.Core OmniMesh.Crypto

/-- The transport of the session with each peer. -/
abbrev Sessions := Map PeerId NoiseTransport

abbrev Dial := Option (Result Script)

/-- The node that dials. -/
structure Caller where
  scheme : KeyScheme
  version : ProtocolVersion
  seed : Key
  localPeerId : PeerId

namespace Caller

variable (self : Caller)

/-- The handshake of `connect_addr`; `none` is a call that never returns. -/
def shake (script : Script) : Option (Result (NoiseTransport × PeerId)) :=
  (performHandshake self.scheme self.version (.withKeypair .initiator self.seed) self.localPeerId
    script).result

def connectAddr (sessions : Sessions) : Dial → Option (Result PeerId) × Sessions
  | none => (none, sessions)
  | some (.error e) => (some (.error e), sessions)
  | some (.ok script) =>
      match self.shake script with
      | none => (none, sessions)
      | some (.error e) => (some (.error e), sessions)
      | some (.ok (transport, remotePeerId)) =>
          (some (.ok remotePeerId), sessions.insert remotePeerId transport)

/-- The handshake of the accept loop's task, under the identity of the key pair. -/
def acceptShake (script : Script) : Option (Result (NoiseTransport × PeerId)) :=
  (performHandshake self.scheme self.version (.withKeypair .responder self.seed)
    (self.scheme.toPeerId self.seed) script).result

/-- What the accept loop's task does with a connection, up to its session loop. -/
def acceptTask (sessions : Sessions) (script : Script) : Sessions :=
  match self.acceptShake script with
  | none => sessions
  | some (.error _) => sessions
  | some (.ok (transport, remotePeerId)) => sessions.insert remotePeerId transport

def connectLoop (sessions : Sessions) (lastErr : Option OmniMeshError) :
    List Dial → Option (Result Unit) × Sessions
  | [] =>
      (some (.error (lastErr.getD (.connection "failed to connect to peer addresses"))), sessions)
  | dial :: addrs =>
      match self.connectAddr sessions dial with
      | (none, sessions) => (none, sessions)
      | (some (.ok _), sessions) => (some (.ok ()), sessions)
      | (some (.error e), sessions) => connectLoop sessions (some e) addrs

/-- `addrs` is what lies behind the addresses that `discovery.lookup` returns, in its order. -/
def connectPeer (sessions : Sessions) (peer : PeerId) (addrs : List Dial) :
    Option (Result Unit) × Sessions :=
  if peer ∈ sessions then (some (.ok ()), sessions)
  else if addrs.isEmpty then
    (some (.error (.discovery s!"no addresses found for peer {peer.toHex}")), sessions)
  else self.connectLoop sessions none addrs

/-! ## What lies behind the addresses -/

/-- The node behind the address completes the handshake as `peer`. -/
def Completes (dial : Dial) (peer : PeerId) : Prop :=
  ∃ script transport, dial = some (.ok script) ∧ self.shake script = some (.ok (transport, peer))

def Fails (dial : Dial) : Prop :=
  (∃ e, dial = some (.error e)) ∨ ∃ script e, dial = some (.ok script) ∧ self.shake script = some (.error e)

/-- The first address that does not fail is this one, and its handshake yields `peer`. -/
def StopsAt (addrs : List Dial) (index : ℕ) (peer : PeerId) : Prop :=
  (∃ dial, addrs[index]? = some dial ∧ self.Completes dial peer) ∧
    ∀ earlier < index, ∃ dial, addrs[earlier]? = some dial ∧ self.Fails dial

end Caller

end OmniMesh.Sdk
