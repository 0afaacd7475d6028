import OmniMesh.Core.Error
import OmniMesh.Core.Types
import OmniMesh.Lib.Frame
import OmniMesh.Lib.Run

/-!
# Framing on a QUIC stream (`omnimesh-transport/src/quic.rs`)

A stream that is open in both directions. `read_exact` takes the bytes as they arrive and keeps them in
the future, so a `recv` future is a reader state.
-/

namespace OmniMesh.Transport.QuicConnection
open OmniMesh.Core

def send (data : Bytes) : Bytes := Frame.encode 4 data

/-- The future of a `recv` call: inside the first or inside the second `read_exact`. -/
abbrev RecvFuture := Frame.Reader

def recv : RecvFuture := .header []

def RecvFuture.poll (self : RecvFuture) (arrived : Bytes) : Frame.Poll × Bytes :=
  Frame.Reader.poll 4 self arrived

/-- What `recv` returns when the stream ends before the buffer of its pending `read_exact` is full. -/
def RecvFuture.finishedEarly : RecvFuture → Result (Option Bytes)
  -- taken for a graceful close, however much of the length prefix was read
  | .header _ => .ok none
  | .body _ got =>
      .error (.transport ("read data: stream finished early (" ++ toString got.length ++ " bytes read)"))

end OmniMesh.Transport.QuicConnection

namespace OmniMesh.Transport
open OmniMesh.Core

/-! ## The calls of `recv` on one stream -/

/-- One end reads a stream until it ends: `transit` and `arrived` are the bytes on the way and at this
end, `finished` says that the end of the stream has arrived, `call` is the pending call of `recv`
(`none` once a call has not returned a frame), `results` what the calls have returned. -/
structure RecvCalls where
  transit : Bytes
  arrived : Bytes
  finished : Bool
  call : Option QuicConnection.RecvFuture
  results : List (Result (Option Bytes))

inductive RecvAct
  | arrive (n : Nat)
  | finish
  | poll

namespace RecvCalls

def init (stream : Bytes) : RecvCalls := ⟨stream, [], false, some QuicConnection.recv, []⟩

def step (s : RecvCalls) : RecvAct → Option RecvCalls
  | .arrive n =>
      if 0 < n ∧ s.transit ≠ [] then
        some { s with arrived := s.arrived ++ s.transit.take n, transit := s.transit.drop n }
      else none
  | .finish => if s.transit = [] ∧ s.finished = false then some { s with finished := true } else none
  | .poll =>
      match s.call with
      | none => none
      | some future =>
          if s.arrived = [] then
            if s.finished then
              some { s with call := none, results := s.results ++ [future.finishedEarly] }
            -- nothing wakes the call
            else none
          else
            match future.poll s.arrived with
            | (.pending future, arrived) => some { s with call := some future, arrived }
            | (.ready frame, arrived) =>
                some { s with
                  call := some QuicConnection.recv
                  arrived
                  results := s.results ++ [.ok (some frame)] }

/-- The results of calls that return the frames, and then tell a stream that ends after the last of
them from one that ends inside a frame. -/
def Tells (frames : List Bytes) (rest : Bytes) (results : List (Result (Option Bytes))) : Prop :=
  ∃ last, results = frames.map (fun frame => .ok (some frame)) ++ [last] ∧
    (last = .ok none ↔ rest = []) ∧ (rest ≠ [] → ∃ e, last = .error e)

/-- The stream does not end inside a length prefix. -/
def WholePrefix (rest : Bytes) : Prop := rest = [] ∨ 4 ≤ rest.length

end RecvCalls

end OmniMesh.Transport
