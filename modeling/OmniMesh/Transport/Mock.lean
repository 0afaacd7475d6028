import OmniMesh.Core.Addr
import OmniMesh.Lib.Mpsc
import OmniMesh.Lib.Run
import OmniMesh.Transport.Connection

/-!
# The in-memory transport (`omnimesh-transport/src/mock.rs`)

Any number of transports that share one registry, the connections between them and the applications that
hold these. The methods of a transport take it exclusively; a `connect` that waits for room in the
listener's channel keeps it. A call that has to wait is not enabled. `listen` and `shutdown` do not wait and
are one step: a `connect` or a send in the middle of them fares as one just before or just after.
-/

namespace OmniMesh.Transport
open OmniMesh.Core

def listenerCapacity : ℕ := 32

def mockCapacity : ℕ := 256

structure MockConnection where
  localAddr : SocketAddr
  remoteAddr : SocketAddr
  connected : Bool

/-- Where one end of a connection is: on the way to the application that will hold it, held, or dropped. -/
inductive Holder
  | transit
  | held
  | dropped
  deriving DecidableEq

/-- The two ends that one `connect` makes; the client is the one that dials. `channels e` is the channel
from which `e` receives. `sent` and `received` are histories of what `send` has accepted and `recv` has
returned. -/
structure MockLink where
  conns : Endpoint → MockConnection
  holders : Endpoint → Holder
  channels : Endpoint → Mpsc Bytes
  sent : Endpoint → List Bytes
  received : Endpoint → List Bytes

namespace MockLink

def new (local' addr : SocketAddr) : MockLink where
  conns
    | .client => ⟨local', addr, true⟩
    | .server => ⟨addr, local', true⟩
  holders _ := .transit
  channels _ := .new mockCapacity
  sent _ := []
  received _ := []

def setHolder (self : MockLink) (e : Endpoint) (holder : Holder) : MockLink :=
  { self with holders := Function.update self.holders e holder }

/-- A dropped end takes the receiver of its own channel and the sender of the other one with it. -/
def drop (e : Endpoint) (self : MockLink) : MockLink :=
  { self.setHolder e .dropped with channels := Function.update self.channels e (self.channels e).close }

def dropBoth (self : MockLink) : MockLink := (self.drop .client).drop .server

/-- `MockConnection::send`. -/
def send (self : MockLink) (e : Endpoint) (data : Bytes) : Option (Result Unit × MockLink) :=
  if !(self.conns e).connected then some (.error (.connection "not connected"), self)
  else
    match (self.channels e.other).send data with
    | .closed => some (.error (.connection "send channel closed"), self)
    | .full => none
    | .sent channel =>
        some (.ok (), { self with
          channels := Function.update self.channels e.other channel
          sent := Function.update self.sent e (self.sent e ++ [data]) })

/-- `MockConnection::recv`. The other end holds the only sender. -/
def recv (self : MockLink) (e : Endpoint) : Option (Result (Option Bytes) × MockLink) :=
  if !(self.conns e).connected then some (.ok none, self)
  else
    match (self.channels e).recv (self.holders e.other ≠ .dropped) with
    | .closed => some (.ok none, self)
    | .empty => none
    | .item data channel =>
        some (.ok (some data), { self with
          channels := Function.update self.channels e channel
          received := Function.update self.received e (self.received e ++ [data]) })

/-- `MockConnection::close`. -/
def close (e : Endpoint) (self : MockLink) : MockLink :=
  { self with conns := Function.update self.conns e { self.conns e with connected := false } }

end MockLink

/-- A channel that `listen` has made. `delivered` and `accepted` are the histories of the connections
that were put into it and taken out of it. -/
structure MockListener where
  owner : ℕ
  addr : SocketAddr
  channel : Mpsc ℕ
  delivered : List ℕ
  accepted : List ℕ

/-- `connect` between its look into the registry and the end of `listener_tx.send`. -/
structure MockDial where
  listener : ℕ
  link : ℕ
  deriving DecidableEq

/-- The channel ends are named by the listener they belong to. `dial` is the pending `connect`. -/
structure MockTransport where
  localAddr : Option SocketAddr
  incomingTx : Option ℕ
  incomingRx : Option ℕ
  dial : Option MockDial

def MockTransport.new : MockTransport := ⟨none, none, none, none⟩

structure MockNet where
  transports : List MockTransport
  registry : Map SocketAddr ℕ
  listeners : List MockListener
  links : List MockLink

/-- `127.0.0.1:0`. -/
def unboundAddr : SocketAddr := .v4 (#[127, 0, 0, 1] : Array UInt8).toVector 0

inductive MockAct
  | new
  | listen (transport : ℕ) (addr : SocketAddr)
  | connect (transport : ℕ) (addr : SocketAddr)
  | deliver (transport : ℕ)
  | cancel (transport : ℕ)
  | accept (transport : ℕ)
  | shutdown (transport : ℕ)
  | dropTransport (transport : ℕ)
  | send (link : ℕ) (e : Endpoint) (data : Bytes)
  | recv (link : ℕ) (e : Endpoint)
  | close (link : ℕ) (e : Endpoint)
  | drop (link : ℕ) (e : Endpoint)

/-- The transport leaves the address at which it listens, or goes to another one. -/
def MockAct.leaves (transport : ℕ) : MockAct → Bool
  | .listen t _ | .shutdown t | .dropTransport t => t = transport
  | _ => false

namespace MockNet

def init : MockNet := ⟨[], ∅, [], []⟩

/-- A transport that no pending `connect` keeps. -/
def free (s : MockNet) (t : ℕ) : Option MockTransport :=
  (s.transports[t]?).filter fun transport => transport.dial.isNone

def setTransport (s : MockNet) (t : ℕ) (transport : MockTransport) : MockNet :=
  { s with transports := s.transports.set t transport }

def setListener (s : MockNet) (l : ℕ) (listener : MockListener) : MockNet :=
  { s with listeners := s.listeners.set l listener }

def setLink (s : MockNet) (k : ℕ) (link : MockLink) : MockNet := { s with links := s.links.set k link }

/-- A listener's receiver is dropped, and the connections that wait in its channel with it. -/
def dropListener (s : MockNet) : Option ℕ → MockNet
  | none => s
  | some l =>
      match s.listeners[l]? with
      | none => s
      | some listener =>
          { s with
            listeners := s.listeners.set l { listener with channel := listener.channel.close }
            links := listener.channel.queue.foldl (fun links k => links.modify k (.drop .server)) s.links }

/-- Some transport, the registry or a pending `connect` holds a sender of the channel. -/
def hasSender (s : MockNet) (l : ℕ) : Bool :=
  s.transports.any (fun t => t.incomingTx = some l ∨ t.dial.any (·.listener = l)) ||
    s.registry.entries.any fun e => e.2 = l

/-- `MockTransport::listen`. -/
def listen (s : MockNet) (t : ℕ) (addr : SocketAddr) : Option MockNet :=
  (s.free t).map fun transport =>
    let s := s.dropListener transport.incomingRx
    let l := s.listeners.length
    { s with
      transports := s.transports.set t ⟨some addr, some l, some l, none⟩
      listeners := s.listeners ++ [⟨t, addr, .new listenerCapacity, [], []⟩]
      registry := s.registry.insert addr l }

/-- `MockTransport::connect` up to its wait; an error is returned at once. -/
def connect (s : MockNet) (t : ℕ) (addr : SocketAddr) : Option (Result Unit × MockNet) :=
  (s.free t).map fun transport =>
    let local' := transport.localAddr.getD unboundAddr
    match s.registry.lookup addr with
    | none => (.error (.connection s!"no listener at {addr.toText}"), s)
    | some l =>
        (.ok (), { s with
          transports := s.transports.set t { transport with dial := some ⟨l, s.links.length⟩ }
          links := s.links ++ [.new local' addr] })

/-- The rest of `MockTransport::connect`. -/
def deliver (s : MockNet) (t : ℕ) : Option (Result ℕ × MockNet) :=
  match s.transports[t]? with
  | some ⟨localAddr, tx, rx, some ⟨l, k⟩⟩ =>
      match s.listeners[l]?, s.links[k]? with
      | some listener, some link =>
          let s := s.setTransport t ⟨localAddr, tx, rx, none⟩
          match listener.channel.send k with
          | .closed => some (.error (.connection "listener dropped"), s.setLink k link.dropBoth)
          | .full => none
          | .sent channel =>
              some (.ok k, (s.setListener l { listener with
                channel, delivered := listener.delivered ++ [k] }).setLink k (link.setHolder .client .held))
      | _, _ => none
  | _ => none

/-- The future of `connect` is dropped. -/
def cancel (s : MockNet) (t : ℕ) : Option MockNet :=
  match s.transports[t]? with
  | some ⟨localAddr, tx, rx, some ⟨_, k⟩⟩ =>
      some { s.setTransport t ⟨localAddr, tx, rx, none⟩ with links := s.links.modify k .dropBoth }
  | _ => none

/-- `MockTransport::accept`. -/
def accept (s : MockNet) (t : ℕ) : Option (Result ℕ × MockNet) :=
  match s.free t with
  | none => none
  | some transport =>
      match transport.incomingRx with
      | none => some (.error (.transport "not listening"), s)
      | some l =>
          match s.listeners[l]? with
          | none => none
          | some listener =>
              match listener.channel.recv (s.hasSender l) with
              | .closed => some (.error (.transport "listener closed"), s)
              | .empty => none
              | .item k channel =>
                  some (.ok k, { s.setListener l { listener with
                    channel, accepted := listener.accepted ++ [k] } with
                    links := s.links.modify k (·.setHolder .server .held) })

/-- `MockTransport::shutdown`: the entry of the address is removed, whoever has put it there. -/
def shutdown (s : MockNet) (t : ℕ) : Option MockNet :=
  (s.free t).map fun transport =>
    let registry := match transport.localAddr with
      | some addr => s.registry.erase addr
      | none => s.registry
    { (s.dropListener transport.incomingRx).setTransport t .new with registry }

/-- A transport is dropped without `shutdown`; its place is taken by a new one. -/
def dropTransport (s : MockNet) (t : ℕ) : Option MockNet :=
  (s.free t).map fun transport => (s.dropListener transport.incomingRx).setTransport t .new

/-- The application holds this end. -/
def held (s : MockNet) (k : ℕ) (e : Endpoint) : Option MockLink :=
  (s.links[k]?).filter fun link => link.holders e = .held

def send (s : MockNet) (k : ℕ) (e : Endpoint) (data : Bytes) : Option (Result Unit × MockNet) :=
  ((s.held k e).bind (·.send e data)).map fun r => (r.1, s.setLink k r.2)

def recv (s : MockNet) (k : ℕ) (e : Endpoint) : Option (Result (Option Bytes) × MockNet) :=
  ((s.held k e).bind (·.recv e)).map fun r => (r.1, s.setLink k r.2)

def step (s : MockNet) : MockAct → Option MockNet
  | .new => some { s with transports := s.transports ++ [.new] }
  | .listen t addr => s.listen t addr
  | .connect t addr => (s.connect t addr).map Prod.snd
  | .deliver t => (s.deliver t).map Prod.snd
  | .cancel t => s.cancel t
  | .accept t => (s.accept t).map Prod.snd
  | .shutdown t => s.shutdown t
  | .dropTransport t => s.dropTransport t
  | .send k e data => (s.send k e data).map Prod.snd
  | .recv k e => (s.recv k e).map Prod.snd
  | .close k e => (s.held k e).map fun link => s.setLink k (link.close e)
  | .drop k e => (s.held k e).map fun link => s.setLink k (link.drop e)

/-- What an action does on connection `k`, as its two applications see it: a `send` that returns `Ok(())`
or a `recv` that returns a message. -/
def label (k : ℕ) (s : MockNet) : MockAct → Option DuplexAct
  | .send j e data =>
      if j = k then
        match s.send k e data with
        | some (.ok (), _) => some (.send e data)
        | _ => none
      else none
  | .recv j e =>
      if j = k then
        match s.recv k e with
        | some (.ok (some data), _) => some (.recv e data)
        | _ => none
      else none
  | _ => none

end MockNet

end OmniMesh.Transport
