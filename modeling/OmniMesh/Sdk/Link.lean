import Mathlib.Logic.Function.Basic
import OmniMesh.Sdk.Handshake

/-!
# The two ends of a handshake

Both ends run `perform_handshake` over one reliable connection. Each call is what it has done with what
the connection has given it so far: room for a message, the messages of the other end in their order,
and the end of the stream once the other call has returned an error and its caller dropped the
connection.
-/

namespace OmniMesh.Sdk
open OmniMesh.Core OmniMesh.Crypto

/-- A node at one end of the connection. -/
structure LinkEnd where
  version : ProtocolVersion
  seed : Key
  localPeerId : PeerId
  deriving DecidableEq, Repr

def LinkEnd.payload (self : LinkEnd) : Bytes := HandshakePayload.codec.serialize ⟨self.version, self.localPeerId⟩

/-- The call of this end over a connection that behaves like `script`. -/
def LinkEnd.shake (S : KeyScheme) (self : LinkEnd) (role : Role) (script : Script) : Outcome :=
  performHandshake S self.version (.withKeypair role self.seed) self.localPeerId script

/-- The scripts of both ends so far. -/
abbrev Link := Role → Script

inductive LinkAct
  | accept (role : Role)
  | deliver (role : Role)
  | close (role : Role) (last : Result (Option HsMessage))

def LinkAct.role : LinkAct → Role
  | .accept role | .deliver role | .close role _ => role

/-- What `recv` returns when the other end is gone. -/
def endsStream : Result (Option HsMessage) → Bool
  | .ok (some _) => false
  | .ok none => true
  | .error _ => true

namespace Link

def init : Link := fun _ => ⟨[], []⟩

section
variable (S : KeyScheme) (ends : Role → LinkEnd)

def outcome (self : Link) (role : Role) : Outcome := (ends role).shake S role (self role)

/-- A call that has returned takes nothing more from the connection. -/
def step (self : Link) (act : LinkAct) : Option Link :=
  if (self.outcome S ends act.role).result.isSome then none
  else
    match act with
    | .accept role =>
        if (self role).sends.length ≤ (self.outcome S ends role).sent.length then
          some (Function.update self role { self role with sends := (self role).sends ++ [.ok ()] })
        else none
    | .deliver role =>
        match (self.outcome S ends role.other).sent[(self role).recvs.length]? with
        | none => none
        | some message =>
            some (Function.update self role { self role with
              recvs := (self role).recvs ++ [.ok (some message)] })
    | .close role last =>
        match (self.outcome S ends role.other).result with
        | some (.error _) =>
            if (self role).recvs.length = (self.outcome S ends role.other).sent.length ∧ endsStream last then
              some (Function.update self role { self role with recvs := (self role).recvs ++ [last] })
            else none
        | _ => none

/-- Nothing is left to happen on the connection. -/
def Settled (self : Link) : Prop := ∀ act, self.step S ends act = none

/-- Both calls have returned `Ok` after three messages, each with the other's id, and what one transport
seals the other opens. -/
structure Agreed (self : Link) (transport : Role → NoiseTransport) : Prop where
  ok : ∀ role, (self.outcome S ends role).result =
    some (.ok (transport role, (ends role.other).localPeerId))
  messages : (self.outcome S ends .initiator).sent.length = 2 ∧
    (self.outcome S ends .responder).sent.length = 1
  delivered : ∀ role, (self role).recvs =
    (self.outcome S ends role.other).sent.map fun message => .ok (some message)
  static : ∀ role, (transport role).remoteStatic = some (S.x25519 (ends role.other).seed)
  matching : ∀ (K : Role → Cipher) role plaintext ciphertext,
    ((transport role).encrypt K plaintext).1 = .ok ciphertext →
    ((transport role.other).decrypt K ciphertext).1 = .ok plaintext

def Refused (self : Link) : Prop := ∀ role, ∃ e, (self.outcome S ends role).result = some (.error e)

end

end Link

end OmniMesh.Sdk
