import OmniMesh.Lib.Run
import OmniMesh.Transport.Quic

/-!
# The session loop over QUIC

`run_session_loop` as the reader of a QUIC stream. Each turn of the loop creates the futures of the
`select` anew; the branches that are not taken are dropped.
-/

namespace OmniMesh.Sdk
open OmniMesh.Core OmniMesh.Transport

/-- `sent` are the frames the remote end has written, `transit` and `arrived` the bytes of the stream on
the way and at this end, `future` the pending `conn.recv()`, `handled` the frames given to
`handle_wire_packet`. -/
structure ReadSide where
  sent : List Bytes
  transit : Bytes
  arrived : Bytes
  future : QuicConnection.RecvFuture
  handled : List Bytes
  running : Bool

inductive ReadAct
  | send (data : Bytes)
  | arrive (n : Nat)
  | poll
  | outgoing
  | stop

namespace ReadSide

def init : ReadSide := ⟨[], [], [], QuicConnection.recv, [], true⟩

def step (s : ReadSide) : ReadAct → Option ReadSide
  | .send data =>
      some { s with sent := s.sent ++ [data], transit := s.transit ++ QuicConnection.send data }
  | .arrive n =>
      some { s with arrived := s.arrived ++ s.transit.take n, transit := s.transit.drop n }
  -- the `select` polls the receiving branch
  | .poll =>
      if s.running then
        match s.future.poll s.arrived with
        | (.pending future, arrived) => some { s with future, arrived }
        | (.ready frame, arrived) =>
            some { s with future := QuicConnection.recv, arrived, handled := s.handled ++ [frame] }
      else none
  -- `write_rx` is ready: its branch is taken and the receiving future dropped
  | .outgoing => if s.running then some { s with future := QuicConnection.recv } else none
  -- any of the exits of the loop
  | .stop => if s.running then some { s with running := false } else none

/-- The frames handled are the first frames sent, and all of them once all bytes are read. -/
structure Framed (s : ReadSide) : Prop where
  prefix_sent : s.handled <+: s.sent
  complete : s.transit = [] → s.arrived = [] → s.handled = s.sent

/-- The frames fit the length prefix, and the loop turns to an outgoing message only between frames,
when the dropped future has taken nothing. -/
def Undisturbed (s : ReadSide) : ReadAct → Prop
  | .send data => data.length < 2 ^ 32
  | .outgoing => s.future = QuicConnection.recv
  | _ => True

end ReadSide

end OmniMesh.Sdk
