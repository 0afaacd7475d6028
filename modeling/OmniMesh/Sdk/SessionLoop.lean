import OmniMesh.Lib.Run
import OmniMesh.Sdk.Wire

/-!
# One session loop and its node (`omnimesh-sdk/src/lib.rs`)

`run_session_loop` with what the packets it reads do to the router and to the services of the node.
Between any two of its steps other tasks may use the transport, the write queue, the router and the
services.
-/

namespace OmniMesh.Sdk
open OmniMesh.Core OmniMesh.Crypto OmniMesh.Routing

/-- The services of the node over their state: which ids are registered, and what the handlers do. -/
structure Services (σ : Type) where
  registered : σ → String → Bool
  handleMessage : String → PeerId → Bytes → σ → Result Unit × σ

/-- What the session loop shares with the other tasks of the node. -/
structure Shared (σ : Type) where
  transport : NoiseTransport
  queue : List Bytes
  router : Router
  services : σ

/-- Where the loop is: in the `select`, in `conn.send` with outgoing bytes or a reply, in
`handle_wire_packet` after the decryption, or behind its end. -/
inductive LoopAt
  | idle
  | sending (bytes : Bytes)
  | handling (packetType : UInt8) (decrypted : Bytes)
  | ended

/-- `effects` and `sent` are the histories of what packets have caused and of what went out. -/
structure SessionLoop (σ : Type) where
  shared : Shared σ
  loop : LoopAt
  effects : List Effect
  sent : List Bytes

inductive LoopAct (σ : Type)
  | pop
  | sent (outcome : Result Unit)
  | recv (bytes : Bytes)
  | handle (nowMs : UInt64)
  | stop
  | other (act : Shared σ → Shared σ)

section
variable {σ : Type} (K : Role → Cipher) (D : UpdateDecoder) (S : Services σ) (peer : PeerId)

def Services.env (services : σ) (nowMs : UInt64) : Env where
  services serviceId :=
    if S.registered services serviceId then
      some fun payload => (S.handleMessage serviceId peer payload services).1
    else none
  nowMs := nowMs

/-- What an effect of a packet does to the node. A pong goes out as the reply. -/
def Shared.apply (shared : Shared σ) : Effect → Shared σ
  | .dispatch serviceId payload =>
      { shared with services := (S.handleMessage serviceId peer payload shared.services).2 }
  | .linkState update => { shared with router := (shared.router.processLinkStateUpdate update).2 }
  | .pong _ => shared
  | .latency nowMs sentTimeMs =>
      { shared with router := shared.router.recordLatency peer (nowMs - sentTimeMs).toNat }

namespace SessionLoop

def step (s : SessionLoop σ) : LoopAct σ → Option (SessionLoop σ)
  | .pop =>
      match s.loop, s.shared.queue with
      | .idle, bytes :: queue => some { s with shared := { s.shared with queue }, loop := .sending bytes }
      | _, _ => none
  | .sent outcome =>
      match s.loop, outcome with
      | .sending bytes, .ok () => some { s with loop := .idle, sent := s.sent ++ [bytes] }
      | .sending _, .error _ => some { s with loop := .ended }
      | _, _ => none
  | .recv bytes =>
      match s.loop with
      | .idle =>
          match openPacket K s.shared.transport bytes with
          -- an error is logged, and the loop goes on
          | (.error _, transport) => some { s with shared := { s.shared with transport } }
          | (.ok none, transport) => some { s with shared := { s.shared with transport } }
          | (.ok (some (packetType, decrypted)), transport) =>
              some { s with
                shared := { s.shared with transport }
                loop := .handling packetType decrypted }
      | _ => none
  | .handle nowMs =>
      match s.loop with
      | .handling packetType decrypted =>
          match finishPacket K D (S.env peer s.shared.services nowMs) s.shared.transport packetType
            decrypted with
          | (.ok (some reply), transport, effects) =>
              some { s with
                shared := effects.foldl (Shared.apply S peer) { s.shared with transport }
                loop := .sending reply
                effects := s.effects ++ effects }
          | (_, transport, effects) =>
              some { s with
                shared := effects.foldl (Shared.apply S peer) { s.shared with transport }
                loop := .idle
                effects := s.effects ++ effects }
      | _ => none
  -- the write queue or the connection is closed, a read fails, or the shutdown signal comes
  | .stop =>
      match s.loop with
      | .idle => some { s with loop := .ended }
      | _ => none
  | .other act => some { s with shared := act s.shared }

/-- The bytes are no packet with the magic, a type that is handled, and a payload that decrypts now. -/
def Unauthentic (transport : NoiseTransport) (bytes : Bytes) : Prop :=
  ¬ ∃ packet decrypted transport', WirePacket.codec.deserialize bytes = .ok packet ∧
    packet.magic = WirePacket.omsh ∧ packet.packetType ∈ [0x02, 0x03, 0x06, 0x07] ∧
    transport.decrypt K packet.payload = (.ok decrypted, transport')

/-- The second run is the first one with bytes put in that are unauthentic when the loop reads them. -/
inductive Injects : SessionLoop σ → List (LoopAct σ) → List (LoopAct σ) → Prop
  | nil {s} : Injects s [] []
  | keep {s act acts acts'} : (∀ t, s.step K D S peer act = some t → Injects t acts acts') →
      Injects s (act :: acts) (act :: acts')
  | inject {s bytes acts acts'} : s.loop = .idle → Unauthentic K s.shared.transport bytes →
      Injects s acts acts' → Injects s acts (.recv bytes :: acts')

end SessionLoop

end

end OmniMesh.Sdk
