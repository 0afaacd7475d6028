import OmniMesh.Sdk.Session

/-!
# A session over a bounded connection (`omnimesh-transport/src/mock.rs`)

Each direction of the connection is a channel with room for `capacity` packets. `conn.send` waits while
its channel is full, and the session loop reads nothing in the meantime.
-/

namespace OmniMesh.Sdk
open OmniMesh.Core OmniMesh.Crypto

/-- The actions of the session loops, as opposed to those of the sender tasks. -/
def SessionAct.ofLoop : SessionAct → Bool
  | .own _ .pop | .own _ .write | .own _ (.handle _) | .recv _ => true
  | .own _ _ => false

/-- The loop is inside `conn.send`, and the channel is full. -/
structure End.Waits (capacity : Nat) (e : End) : Prop where
  sending : ∃ packet, e.loop = .sending packet
  full : capacity ≤ e.wire.length

/-- The action takes the loop into `conn.send`: with a packet of the queue, or with the pong to a ping
that the transport can still seal. -/
def End.StartsSend (e : End) : EndAct → Prop
  | .pop => True
  | .handle _ =>
      match e.loop with
      | .handling packetType decrypted =>
          packetType = PacketType.ping ∧ e.transport.sendNonce < maxNonce ∧
            decrypted.length + 16 ≤ maxMessageLen
      | _ => False
  | _ => False

namespace Session

def blocked (capacity : Nat) (s : Session) : SessionAct → Bool
  | .own r .write => capacity ≤ (s r).wire.length
  | _ => false

def boundedStep (capacity : Nat) (K : Role → Cipher) (D : UpdateDecoder) (s : Session)
    (act : SessionAct) : Option Session :=
  if s.blocked capacity act then none else s.step K D act

/-- There is something to send or to read, and neither loop can take a step. -/
structure Deadlocked (capacity : Nat) (K : Role → Cipher) (D : UpdateDecoder) (s : Session) : Prop where
  pending : ∃ r, (s r).wire ≠ [] ∨ (s r).queue ≠ []
  stuck : ∀ act : SessionAct, act.ofLoop → s.boundedStep capacity K D act = none

/-- A loop does not go into `conn.send` on a full channel while the other loop waits in its own. -/
def Yields (capacity : Nat) (s : Session) : SessionAct → Prop
  | .own r act =>
      (s r).StartsSend act → capacity ≤ (s r).wire.length → ¬ (s r.other).Waits capacity
  | .recv _ => True

end Session

end OmniMesh.Sdk
