import OmniMesh.Crypto.Noise

/-!
# The Noise_XX handshake (`omnimesh-crypto/src/noise.rs`)

A symbolic handshake state: three messages, alternately written and read, where messages 2 and 3 show
that their writer holds a static private key.
-/

namespace OmniMesh.Crypto
open OmniMesh.Core

/-- A handshake message as the term it was made from. `other` is any byte string that is not a message
of this handshake. -/
inductive HsMessage
  | first (payload : Bytes)
  | second (privateKey : Key) (payload : Bytes)
  | third (privateKey : Key) (payload : Bytes)
  | other (bytes : Bytes)
  deriving DecidableEq, Repr

/-- The private key without which the message cannot be made. -/
def HsMessage.privateKey : HsMessage → Option Key
  | .second k _ | .third k _ => some k
  | _ => none

def HsMessage.payload : HsMessage → Bytes
  | .first payload | .second _ payload | .third _ payload => payload
  | .other _ => []

/-- What a node takes from other crates: the two public keys that a 32-byte seed stands for, the static key
of the Noise handshake and the identity key, and what the error of `snow` says of a message that it cannot
read in some turn. -/
structure KeyScheme where
  x25519 : Key → Key
  ed25519 : Key → Key
  readError : Nat → HsMessage → String

def KeyScheme.toPeerId (S : KeyScheme) (seed : Key) : PeerId := .fromBytes (S.ed25519 seed)

/-- `turn` counts the messages written and read so far. -/
structure NoiseHandshake where
  role : Role
  privateKey : Key
  turn : Nat
  remoteStatic : Option Key
  deriving DecidableEq, Repr

namespace NoiseHandshake

def withKeypair (role : Role) (privateKey : Key) : NoiseHandshake := ⟨role, privateKey, 0, none⟩

def isFinished (self : NoiseHandshake) : Bool := self.turn = 3

/-- The ends write in turns, and the initiator begins. -/
def myTurn (self : NoiseHandshake) : Bool :=
  match self.role with
  | .initiator => self.turn % 2 = 0
  | .responder => self.turn % 2 = 1

/-- The `StateProblem` of `snow` when the end cannot write. -/
def writeProblem (self : NoiseHandshake) : String :=
  if self.myTurn then "HandshakeAlreadyFinished" else "NotTurnToWrite"

def writeMessage (self : NoiseHandshake) (payload : Bytes) : Result (HsMessage × NoiseHandshake) :=
  match self.role, self.turn with
  | .initiator, 0 => .ok (.first payload, { self with turn := 1 })
  | .responder, 1 => .ok (.second self.privateKey payload, { self with turn := 2 })
  | .initiator, 2 => .ok (.third self.privateKey payload, { self with turn := 3 })
  | _, _ => .error (.handshake s!"write failed: state error: {self.writeProblem}")

def readMessage (S : KeyScheme) (self : NoiseHandshake) (message : HsMessage) :
    Result (Bytes × NoiseHandshake) :=
  match self.role, self.turn, message with
  | .responder, 0, .first payload => .ok (payload, { self with turn := 1 })
  | .initiator, 1, .second k payload =>
      .ok (payload, { self with turn := 2, remoteStatic := some (S.x25519 k) })
  | .responder, 2, .third k payload =>
      .ok (payload, { self with turn := 3, remoteStatic := some (S.x25519 k) })
  | _, _, _ => .error (.handshake s!"read failed: {S.readError self.turn message}")

def intoTransport (self : NoiseHandshake) : Result NoiseTransport :=
  if self.isFinished then .ok (.fresh self.role self.remoteStatic)
  else .error (.handshake "handshake not yet complete")

end NoiseHandshake

end OmniMesh.Crypto
