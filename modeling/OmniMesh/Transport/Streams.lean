import Mathlib.Logic.Function.Basic
import OmniMesh.Core.Types
import OmniMesh.Lib.Run

/-!
# The two ends of a QUIC connection (`omnimesh-transport/src/quic.rs`)

Each end opens or accepts a bidirectional stream on its first call. The other end's streams are
accepted in the order of their opening, once data has been written on them.
-/

namespace OmniMesh.Transport
open OmniMesh.Core

inductive Endpoint
  | client
  | server
  deriving DecidableEq

def Endpoint.other : Endpoint → Endpoint
  | .client => .server
  | .server => .client

structure StreamId where
  opener : Endpoint
  index : Nat
  deriving DecidableEq

/-- A `QuicConnection`: `opened` counts its `open_bi`, `accepted` its `accept_bi`, `writing` is the data
of a `send` that has a stream and has not written yet, `sent` and `received` are histories. -/
structure QuicEnd where
  sendStream : Option StreamId
  recvStream : Option StreamId
  opened : Nat
  accepted : Nat
  writing : Option Bytes
  sent : List Bytes
  received : List Bytes

/-- `unread stream e` are the messages on the stream on their way to `e`. -/
structure StreamPair where
  ends : Endpoint → QuicEnd
  unread : StreamId → Endpoint → List Bytes

inductive StreamAct
  | send (e : Endpoint) (data : Bytes)
  | write (e : Endpoint)
  | accept (e : Endpoint)
  | recv (e : Endpoint)

namespace StreamPair

def init : StreamPair := ⟨fun _ => ⟨none, none, 0, 0, none, [], []⟩, fun _ _ => []⟩

def set (s : StreamPair) (e : Endpoint) (conn : QuicEnd) : StreamPair :=
  { s with ends := Function.update s.ends e conn }

def setUnread (s : StreamPair) (stream : StreamId) (e : Endpoint) (messages : List Bytes) : StreamPair :=
  { s with unread := Function.update s.unread stream (Function.update (s.unread stream) e messages) }

def step (s : StreamPair) : StreamAct → Option StreamPair
  | .send e data =>
      let conn := s.ends e
      if conn.writing = none then
        match conn.sendStream with
        | some _ => some (s.set e { conn with writing := some data })
        | none =>
            -- `open_bi`, which gives both directions
            let stream : StreamId := ⟨e, conn.opened⟩
            some (s.set e { conn with
              sendStream := some stream
              recvStream := some stream
              opened := conn.opened + 1
              writing := some data })
      else none
  | .write e =>
      let conn := s.ends e
      match conn.writing, conn.sendStream with
      | some data, some stream =>
          some ((s.set e { conn with writing := none, sent := conn.sent ++ [data] }).setUnread stream e.other
            (s.unread stream e.other ++ [data]))
      | _, _ => none
  -- a `recv` without a stream: `accept_bi`, which gives both directions too
  | .accept e =>
      let conn := s.ends e
      let stream : StreamId := ⟨e.other, conn.accepted⟩
      if conn.writing = none ∧ conn.recvStream = none ∧ conn.accepted < (s.ends e.other).opened ∧
          s.unread stream e ≠ [] then
        some (s.set e { conn with
          sendStream := some stream
          recvStream := some stream
          accepted := conn.accepted + 1 })
      else none
  | .recv e =>
      let conn := s.ends e
      match conn.writing, conn.recvStream with
      | none, some stream =>
          match s.unread stream e with
          | message :: rest =>
              some ((s.set e { conn with received := conn.received ++ [message] }).setUnread stream e rest)
          | [] => none
      | _, _ => none

/-- The message `i` that `e` sent is on a stream from which the other end never reads it. -/
def Lost (s : StreamPair) (e : Endpoint) (i : Nat) : Prop :=
  i < (s.ends e).sent.length ∧
    ∀ acts t, Lts.run step s acts = some t → (t.ends e.other).received.length ≤ i

/-- An end whose first call is a `send` makes it before the other end has opened a stream. -/
def Alone (s : StreamPair) : StreamAct → Prop
  | .send e _ => (s.ends e).sendStream = none → (s.ends e.other).opened = 0
  | _ => True

end StreamPair

end OmniMesh.Transport
