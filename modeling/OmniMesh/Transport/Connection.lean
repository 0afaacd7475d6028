import OmniMesh.Lib.Fifo
import OmniMesh.Transport.Streams

/-!
# What a connection is for (`omnimesh-transport/src/traits.rs`)

The trait `Connection` promises a bidirectional connection. The promise as a system of its own: one fifo
in each direction, named by the end that sends. The transports are compared with it.
-/

namespace OmniMesh.Transport
open OmniMesh.Core

abbrev Duplex := Endpoint → Fifo Bytes

/-- A `send` that has returned `Ok(())`, and a `recv` that has returned the data. -/
inductive DuplexAct
  | send (e : Endpoint) (data : Bytes)
  | recv (e : Endpoint) (data : Bytes)
  deriving DecidableEq

namespace Duplex

def init : Duplex := fun _ => .empty

def step (d : Duplex) : DuplexAct → Option Duplex
  | .send e data => some (Function.update d e ((d e).send data))
  | .recv e data =>
      if h : (d e.other).next = some data then
        some (Function.update d e.other ((d e.other).deliver data h))
      else none

end Duplex

/-- What the two applications see of a QUIC connection. -/
def StreamPair.label (s : StreamPair) : StreamAct → Option DuplexAct
  | .write e => (s.ends e).writing.map (.send e)
  | .recv e => (s.ends e).recvStream.bind fun stream => (s.unread stream e).head?.map (.recv e)
  | .send _ _ | .accept _ => none

end OmniMesh.Transport
