import OmniMesh.Crypto.Handshake
import OmniMesh.Lib.Codec

/-!
# `perform_handshake` (`omnimesh-sdk/src/lib.rs`)
-/

namespace OmniMesh.Sdk
open OmniMesh.Core OmniMesh.Crypto

structure HandshakePayload where
  version : ProtocolVersion
  peerId : PeerId
  deriving DecidableEq, Repr

def HandshakePayload.codec : Codec HandshakePayload :=
  (Codec.pair (.pair .u16 (.pair .u16 .u16)) (.array 32)).map
    (fun p => ⟨⟨p.1.1, p.1.2.1, p.1.2.2⟩, ⟨p.2⟩⟩)
    (fun p => ((p.version.major, p.version.minor, p.version.patch), p.peerId.bytes)) fun _ => rfl

/-- How the connection behaves: what each `recv` and each `send` returns, in order. A call beyond the
end of its list is pending. -/
structure Script where
  recvs : List (Result (Option HsMessage))
  sends : List (Result Unit)

/-- What the call has sent so far, and its result unless it is pending. -/
structure Outcome where
  sent : List HsMessage
  result : Option (Result (NoiseTransport × PeerId))

def finishHandshake (handshake : NoiseHandshake) (remotePeerId : Option PeerId) :
    Result (NoiseTransport × PeerId) :=
  match handshake.intoTransport with
  | .error e => .error e
  | .ok transport =>
      match remotePeerId with
      | none => .error (.handshake "handshake completed without remote peer id")
      | some remoteId => .ok (transport, remoteId)

section
variable (S : KeyScheme) (current : ProtocolVersion)

/-- What both roles do with a received message: read it, decode and check the payload. -/
def readPayload (handshake : NoiseHandshake) (recv : Result (Option HsMessage)) :
    Result (NoiseHandshake × PeerId) :=
  match recv with
  | .error e => .error e
  | .ok none => .error (.handshake "closed during handshake")
  | .ok (some message) =>
      match handshake.readMessage S message with
      | .error e => .error e
      | .ok (payload, handshake) =>
          match HandshakePayload.codec.deserialize payload with
          | .error e => .error (.serialization s!"handshake payload: {e}")
          | .ok remotePayload =>
              if current.isCompatibleWith remotePayload.version then
                .ok (handshake, remotePayload.peerId)
              else
                .error (.protocolMismatch current.toString remotePayload.version.toString)

/-- The variables of the loop, with what is left of the script. -/
structure LoopState where
  sends : List (Result Unit)
  sent : List HsMessage
  handshake : NoiseHandshake
  remotePeerId : Option PeerId
  recvs : List (Result (Option HsMessage))

def LoopState.start (handshake : NoiseHandshake) (script : Script) : LoopState :=
  ⟨script.sends, [], handshake, none, script.recvs⟩

inductive Turn
  | leave (outcome : Outcome)
  | again (next : LoopState)

/-- One iteration of the loop. -/
def handshakeTurn (localPeerId : PeerId) (s : LoopState) : Turn :=
  if s.handshake.isFinished then .leave ⟨s.sent, some (finishHandshake s.handshake s.remotePeerId)⟩
  else
    let payload := HandshakePayload.codec.serialize ⟨current, localPeerId⟩
    match s.handshake.role with
    | .initiator =>
        match s.handshake.writeMessage payload, s.sends with
        | .error e, _ => .leave ⟨s.sent, some (.error e)⟩
        | .ok _, [] => .leave ⟨s.sent, none⟩
        | .ok (msg, _), .error e :: _ => .leave ⟨s.sent ++ [msg], some (.error e)⟩
        | .ok (msg, handshake), .ok () :: sends =>
            if handshake.isFinished then
              .leave ⟨s.sent ++ [msg], some (finishHandshake handshake s.remotePeerId)⟩
            else
              match s.recvs with
              | [] => .leave ⟨s.sent ++ [msg], none⟩
              | reply :: recvs =>
                  match readPayload S current handshake reply with
                  | .error e => .leave ⟨s.sent ++ [msg], some (.error e)⟩
                  | .ok (handshake, peerId) => .again ⟨sends, s.sent ++ [msg], handshake, some peerId, recvs⟩
    | .responder =>
        match s.recvs with
        | [] => .leave ⟨s.sent, none⟩
        | incoming :: recvs =>
            match readPayload S current s.handshake incoming with
            | .error e => .leave ⟨s.sent, some (.error e)⟩
            | .ok (handshake, peerId) =>
                if handshake.isFinished then
                  .leave ⟨s.sent, some (finishHandshake handshake (some peerId))⟩
                else
                  match handshake.writeMessage payload, s.sends with
                  | .error e, _ => .leave ⟨s.sent, some (.error e)⟩
                  | .ok _, [] => .leave ⟨s.sent, none⟩
                  | .ok (msg, _), .error e :: _ => .leave ⟨s.sent ++ [msg], some (.error e)⟩
                  | .ok (msg, handshake), .ok () :: sends =>
                      .again ⟨sends, s.sent ++ [msg], handshake, some peerId, recvs⟩

/-- An iteration that does not leave the loop has received a message. -/
theorem recvs_lt_of_again {localPeerId : PeerId} {s next : LoopState}
    (h : handshakeTurn S current localPeerId s = .again next) : next.recvs.length < s.recvs.length := by
  obtain ⟨sends, sent, handshake, remotePeerId, recvs⟩ := s
  unfold handshakeTurn at h
  grind

/-- The loop of `perform_handshake`. -/
def handshakeLoop (localPeerId : PeerId) (s : LoopState) : Outcome :=
  match _h : handshakeTurn S current localPeerId s with
  | .leave outcome => outcome
  | .again next => handshakeLoop localPeerId next
  termination_by s.recvs.length
  decreasing_by exact recvs_lt_of_again S current _h

/-- `perform_handshake` of a node with this seed, over a connection that behaves like `script`. -/
def performHandshake (handshake : NoiseHandshake) (localPeerId : PeerId) (script : Script) : Outcome :=
  handshakeLoop S current localPeerId (.start handshake script)

/-- The outcome of the loop when it is left within `n` iterations. -/
def leavesWithin (localPeerId : PeerId) : ℕ → LoopState → Option Outcome
  | 0, _ => none
  | n + 1, s =>
      match handshakeTurn S current localPeerId s with
      | .leave outcome => some outcome
      | .again next => leavesWithin localPeerId n next

end

/-! ## What a finished handshake says about the remote end -/

/-- The message that shows the remote static key: the first one an initiator reads, the second one a
responder reads. -/
def Script.identityMessage (script : Script) (role : Role) : Option HsMessage :=
  match role, script.recvs with
  | .initiator, .ok message :: _ => message
  | .responder, _ :: .ok message :: _ => message
  | _, _ => none

def claimedPeerId (message : HsMessage) : Option PeerId :=
  match HandshakePayload.codec.deserialize message.payload with
  | .ok payload => some payload.peerId
  | .error _ => none

/-- A call of `perform_handshake` that returned `Ok`, with the private keys of the remote end: it makes
only messages for which it holds the key, and chooses their payloads freely. -/
structure Accepted (S : KeyScheme) where
  current : ProtocolVersion
  role : Role
  seed : Key
  localPeerId : PeerId
  script : Script
  transport : NoiseTransport
  peerId : PeerId
  ok : (performHandshake S current (.withKeypair role seed) localPeerId script).result =
    some (.ok (transport, peerId))
  held : Set Key
  speaks : ∀ message k, .ok (some message) ∈ script.recvs → message.privateKey = some k → k ∈ held

namespace Accepted

variable {S : KeyScheme}

def Authenticated (h : Accepted S) : Prop := ∃ seed ∈ h.held, S.toPeerId seed = h.peerId

def claim (h : Accepted S) : Option PeerId :=
  (h.script.identityMessage h.role).bind claimedPeerId

def Truthful (h : Accepted S) : Prop := ∃ seed ∈ h.held, h.claim = some (S.toPeerId seed)

end Accepted

end OmniMesh.Sdk
