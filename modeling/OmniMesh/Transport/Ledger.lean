import OmniMesh.Lib.Since
import OmniMesh.Transport.Pool

/-!
# What the pool tells about its connections (`omnimesh-transport/src/connection.rs`)

The counters are added to as in a release build, where they wrap.
-/

namespace OmniMesh.Transport
open OmniMesh.Core

namespace ConnectionPool

def get (self : ConnectionPool) (peerId : PeerId) : Option ConnectionInfo := self.connections.lookup peerId

def isConnected (self : ConnectionPool) (peerId : PeerId) : Bool :=
  ((self.connections.lookup peerId).map fun entry => decide (entry.state = .connected)).getD false

def isEmpty (self : ConnectionPool) : Bool := self.connections.entries.isEmpty

def connectedPeers (self : ConnectionPool) : List PeerId :=
  (self.connections.entries.filter fun entry => entry.2.state = .connected).map Sigma.fst

end ConnectionPool

/-! ## The history of the map -/

inductive PoolEvent
  | inserted (info : ConnectionInfo)
  | removed (peerId : PeerId)
  | updated (peerId : PeerId) (state : ConnectionState)
  | sent (peerId : PeerId) (bytes : UInt64)
  | received (peerId : PeerId) (bytes : UInt64)

/-- What a step does to the map, from whichever task it comes. -/
def SharedPool.event (s : SharedPool) : PoolAct → Option PoolEvent
  | .insert task =>
      match s.inserts.lookup task with
      | some (.checked info) => some (.inserted info)
      | _ => none
  | .remove peerId => some (.removed peerId)
  | .updateState peerId state => some (.updated peerId state)
  | .recordBytesSent peerId bytes => some (.sent peerId bytes)
  | .recordBytesReceived peerId bytes => some (.received peerId bytes)
  | .check _ _ | .refuse _ => none

structure Ledger where
  shared : SharedPool
  events : List PoolEvent

namespace Ledger

def init (maxConnections : ℕ) : Ledger := ⟨.init maxConnections, []⟩

def step (s : Ledger) (act : PoolAct) : Option Ledger :=
  (s.shared.step act).map fun shared => ⟨shared, s.events ++ (s.shared.event act).toList⟩

end Ledger

namespace PoolEvent

/-- The event starts or ends the entry of the peer. -/
def resets (peer : PeerId) : PoolEvent → Bool
  | .inserted info => info.peerId = peer
  | .removed peerId => peerId = peer
  | _ => false

def state? (peer : PeerId) : PoolEvent → Option ConnectionState
  | .updated peerId state => if peerId = peer then some state else none
  | _ => none

def sent? (peer : PeerId) : PoolEvent → Option UInt64
  | .sent peerId bytes => if peerId = peer then some bytes else none
  | _ => none

def received? (peer : PeerId) : PoolEvent → Option UInt64
  | .received peerId bytes => if peerId = peer then some bytes else none
  | _ => none

end PoolEvent

/-- An entry some time after its insertion: the state that was set last, and what was recorded in all. -/
def ConnectionInfo.after (inserted : ConnectionInfo) (later : List PoolEvent) : ConnectionInfo :=
  { inserted with
    state := (later.filterMap (PoolEvent.state? inserted.peerId)).getLastD inserted.state
    bytesSent := (later.filterMap (PoolEvent.sent? inserted.peerId)).foldl (· + ·) inserted.bytesSent
    bytesReceived :=
      (later.filterMap (PoolEvent.received? inserted.peerId)).foldl (· + ·) inserted.bytesReceived }

/-- What the peer's entry should be: that of the last insertion, if it was not removed since. -/
def Ledger.Tells (events : List PoolEvent) (peer : PeerId) (info : ConnectionInfo) : Prop :=
  ∃ inserted later, Since.Split (PoolEvent.resets peer) events (.inserted inserted) later ∧
    info = inserted.after later

end OmniMesh.Transport
