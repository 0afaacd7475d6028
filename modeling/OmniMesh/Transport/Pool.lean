import Mathlib.Data.Finset.Card
import OmniMesh.Core.Types
import OmniMesh.Lib.Run

/-!
# The connection pool (`omnimesh-transport/src/connection.rs`)

Any number of tasks share the pool. An `insert` reads the size of the map in one step and inserts into
the map in another one.
-/

namespace OmniMesh.Transport
open OmniMesh.Core

structure ConnectionInfo where
  peerId : PeerId
  remoteAddr : SocketAddr
  state : ConnectionState
  connectedAt : UInt64
  bytesSent : UInt64
  bytesReceived : UInt64

structure ConnectionPool where
  connections : Map PeerId ConnectionInfo
  maxConnections : ℕ

/-- Where a call of `insert` is: past a check that found room, past one that found none, or returned. -/
inductive Insertion
  | checked (info : ConnectionInfo)
  | full
  | returned (result : Result Unit)

/-- The peer that the call is about to insert. -/
def Insertion.peer? : Insertion → Option PeerId
  | .checked info => some info.peerId
  | _ => none

/-- The pool with the calls of `insert`, each named by its task. -/
structure SharedPool where
  pool : ConnectionPool
  inserts : Map ℕ Insertion

inductive PoolAct
  | check (task : ℕ) (info : ConnectionInfo)
  | insert (task : ℕ)
  | refuse (task : ℕ)
  | remove (peerId : PeerId)
  | updateState (peerId : PeerId) (state : ConnectionState)
  | recordBytesSent (peerId : PeerId) (bytes : UInt64)
  | recordBytesReceived (peerId : PeerId) (bytes : UInt64)

namespace ConnectionPool

def new (maxConnections : ℕ) : ConnectionPool := ⟨∅, maxConnections⟩

def len (self : ConnectionPool) : ℕ := self.connections.keys.length

/-- What the `get_mut` methods share: they change the entry of a peer, if there is one. -/
def modify (self : ConnectionPool) (peerId : PeerId) (f : ConnectionInfo → ConnectionInfo) :
    ConnectionPool :=
  match self.connections.lookup peerId with
  | some info => { self with connections := self.connections.insert peerId (f info) }
  | none => self

def remove (self : ConnectionPool) (peerId : PeerId) : ConnectionPool :=
  { self with connections := self.connections.erase peerId }

def updateState (self : ConnectionPool) (peerId : PeerId) (state : ConnectionState) : ConnectionPool :=
  self.modify peerId fun info => { info with state }

def recordBytesSent (self : ConnectionPool) (peerId : PeerId) (bytes : UInt64) : ConnectionPool :=
  self.modify peerId fun info => { info with bytesSent := info.bytesSent + bytes }

def recordBytesReceived (self : ConnectionPool) (peerId : PeerId) (bytes : UInt64) : ConnectionPool :=
  self.modify peerId fun info => { info with bytesReceived := info.bytesReceived + bytes }

end ConnectionPool

namespace SharedPool

def init (maxConnections : ℕ) : SharedPool := ⟨.new maxConnections, ∅⟩

def step (s : SharedPool) : PoolAct → Option SharedPool
  | .check task info =>
      if task ∈ s.inserts then none
      else if s.pool.len ≥ s.pool.maxConnections then
        some { s with inserts := s.inserts.insert task .full }
      else some { s with inserts := s.inserts.insert task (.checked info) }
  | .insert task =>
      match s.inserts.lookup task with
      | some (.checked info) =>
          some { s with
            pool := { s.pool with connections := s.pool.connections.insert info.peerId info }
            inserts := s.inserts.insert task (.returned (.ok ())) }
      | _ => none
  -- the size in the text is read again
  | .refuse task =>
      match s.inserts.lookup task with
      | some .full =>
          let e := .connection s!"connection pool full ({s.pool.len}/{s.pool.maxConnections})"
          some { s with inserts := s.inserts.insert task (.returned (.error e)) }
      | _ => none
  | .remove peerId => some { s with pool := s.pool.remove peerId }
  | .updateState peerId state => some { s with pool := s.pool.updateState peerId state }
  | .recordBytesSent peerId bytes => some { s with pool := s.pool.recordBytesSent peerId bytes }
  | .recordBytesReceived peerId bytes => some { s with pool := s.pool.recordBytesReceived peerId bytes }

/-- The peers in the map, and those that an `insert` past its check is about to put there. -/
def claimed (s : SharedPool) : Finset PeerId :=
  (s.pool.connections.keys ++ s.inserts.entries.filterMap fun e => Insertion.peer? e.2).toFinset

/-- An `insert` that finds room finds room beside those that have found it before as well. -/
def Roomy (s : SharedPool) : PoolAct → Prop
  | .check task info => task ∉ s.inserts → s.pool.len < s.pool.maxConnections →
      (insert info.peerId s.claimed).card ≤ s.pool.maxConnections
  | _ => True

end SharedPool

end OmniMesh.Transport
