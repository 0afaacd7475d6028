import Mathlib.Logic.Function.Basic
import OmniMesh.Lib.Run
import OmniMesh.Sdk.Wire

/-!
# One session on a hostile network

The adversary owns the connection: a session loop is given any byte strings in any order. What the two
nodes sealed and what their packets made them do is logged.
-/

namespace OmniMesh.Sdk
open OmniMesh.Core OmniMesh.Crypto

/-- One node: `sealed` lists type and plaintext of the packets it sealed, by nonce, and `effects` what
`handle_wire_packet` did. -/
structure Party where
  transport : NoiseTransport
  handling : Option (UInt8 × Bytes)
  sealed : List (UInt8 × Bytes)
  effects : List Effect

abbrev Exchange := Role → Party

inductive ExchangeAct
  | encrypt (role : Role) (sender : Sender)
  | deliver (role : Role) (bytes : Bytes)
  | handle (role : Role) (env : Env)

def Effect.reply : Effect → Option (UInt8 × Bytes)
  | .pong plaintext => some (PacketType.pong, plaintext)
  | _ => none

namespace Party

def encrypt (K : Role → Cipher) (self : Party) (sender : Sender) : Party :=
  match self.transport.encrypt K sender.plainBytes with
  | (.error _, transport) => { self with transport }
  | (.ok _, transport) =>
      { self with transport, sealed := self.sealed ++ [(sender.packetType, sender.plainBytes)] }

/-- The loop reads `bytes`; `handle_wire_packet` runs up to the decryption. -/
def deliver (K : Role → Cipher) (self : Party) (bytes : Bytes) : Option Party :=
  match self.handling with
  | some _ => none
  | none =>
      match openPacket K self.transport bytes with
      | (.ok (some packet), transport) => some { self with transport, handling := some packet }
      | (_, transport) => some { self with transport }

def handle (K : Role → Cipher) (D : UpdateDecoder) (self : Party) (env : Env) : Option Party :=
  match self.handling with
  | none => none
  | some (packetType, decrypted) =>
      let (_, transport, effects) := finishPacket K D env self.transport packetType decrypted
      some { self with
        transport, handling := none
        sealed := self.sealed ++ effects.filterMap Effect.reply
        effects := self.effects ++ effects }

end Party

namespace Exchange

def init (remoteStatic : Role → Option Key) : Exchange := fun r =>
  ⟨.fresh r (remoteStatic r), none, [], []⟩

def step (K : Role → Cipher) (D : UpdateDecoder) (s : Exchange) : ExchangeAct → Option Exchange
  | .encrypt r sender => some (Function.update s r ((s r).encrypt K sender))
  | .deliver r bytes => ((s r).deliver K bytes).map fun p => Function.update s r p
  | .handle r env => ((s r).handle K D env).map fun p => Function.update s r p

/-- `bytes` is a packet that the end `r` would decrypt, to `plaintext`. -/
def Accepts (K : Role → Cipher) (s : Exchange) (r : Role) (bytes : Bytes) (packet : WirePacket)
    (plaintext : Bytes) : Prop :=
  WirePacket.codec.deserialize bytes = .ok packet ∧ packet.magic = WirePacket.omsh ∧
    packet.packetType ∈ [0x02, 0x03, 0x06, 0x07] ∧
    (K r.other).decrypt (s r).transport.recvNonce packet.payload = .ok plaintext

/-- The ideal AEAD: what decrypts is what the other end sealed under the receive nonce. -/
def NoForgery (K : Role → Cipher) (s : Exchange) : ExchangeAct → Prop
  | .deliver r bytes => ∀ packet plaintext, Accepts K s r bytes packet plaintext →
      ∃ ty, (s r.other).sealed[(s r).transport.recvNonce]? = some (ty, plaintext)
  | _ => True

/-- A ciphertext that decrypts is delivered under the packet type it was sealed with. -/
def TypeKept (K : Role → Cipher) (s : Exchange) : ExchangeAct → Prop
  | .deliver r bytes => ∀ packet plaintext, Accepts K s r bytes packet plaintext →
      ∀ q, (s r.other).sealed[(s r).transport.recvNonce]? = some q → packet.packetType = q.1
  | _ => True

end Exchange

/-- The effect is what a packet with this type and plaintext stands for. -/
def Effect.CausedBy (D : UpdateDecoder) : Effect → UInt8 × Bytes → Prop
  | .dispatch serviceId payload, (ty, p) =>
      ty = PacketType.data ∧ ServicePayload.codec.deserialize p = .ok ⟨serviceId, payload⟩
  | .linkState update, (ty, p) => ty = PacketType.control ∧ D p = .ok update
  | .pong plaintext, (ty, p) => ty = PacketType.ping ∧ p = plaintext
  | .latency nowMs sentTimeMs, (ty, p) =>
      ty = PacketType.pong ∧ Codec.u64.deserialize p = .ok sentTimeMs ∧ sentTimeMs ≤ nowMs

/-- Each effect at the end `r` is caused by a packet that the other end sealed with that type and
plaintext, in the order of sealing and at most once for each packet. -/
def Exchange.Authentic (D : UpdateDecoder) (s : Exchange) (r : Role) : Prop :=
  ∃ causes, causes.Sublist (s r.other).sealed ∧
    List.Forall₂ (Effect.CausedBy D) (s r).effects causes

end OmniMesh.Sdk
