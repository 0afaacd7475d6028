import Mathlib.Algebra.Ring.Nat
import OmniMesh.Core.Types
import OmniMesh.Lib.LastWins

/-!
# The peer address cache (`omnimesh-discovery/src/cache.rs`)

Instants and durations are in nanoseconds. Every operation takes the instant that it reads from the
clock.
-/

namespace OmniMesh.Discovery
open OmniMesh.Core

def defaultTtl : ℕ := 1800 * 10 ^ 9

structure CachedAddress where
  addr : SocketAddr
  expiresAt : ℕ

structure PeerAddressCache where
  inner : Map PeerId (List CachedAddress)

/-- The addresses that are not expired at `now`, in the order of the list. -/
def active (now : ℕ) (list : List CachedAddress) : List SocketAddr :=
  (list.filter fun x => x.expiresAt > now).map CachedAddress.addr

namespace PeerAddressCache

variable (self : PeerAddressCache)

def new : PeerAddressCache := ⟨∅⟩

def insertWithTtl (peerId : PeerId) (addr : SocketAddr) (ttl now : ℕ) : PeerAddressCache :=
  let entry := ⟨addr, now + ttl⟩
  let list := (self.inner.lookup peerId).getD []
  ⟨self.inner.insert peerId (list.filter (fun x => x.addr ≠ addr) ++ [entry])⟩

def insert (peerId : PeerId) (addr : SocketAddr) (now : ℕ) : PeerAddressCache :=
  self.insertWithTtl peerId addr defaultTtl now

/-- Every address comes with the instant of its insertion. -/
def insertMany (peerId : PeerId) (addrs : List (SocketAddr × ℕ)) : PeerAddressCache :=
  addrs.foldl (fun cache a => cache.insert peerId a.1 a.2) self

def lookup (peerId : PeerId) (now : ℕ) : List SocketAddr :=
  match self.inner.lookup peerId with
  | some list => active now list
  | none => []

def remove (peerId : PeerId) : PeerAddressCache := ⟨self.inner.erase peerId⟩

def prune (now : ℕ) : PeerAddressCache :=
  ⟨self.inner.retain fun _ list =>
    let list := list.filter fun x => x.expiresAt > now
    if list.isEmpty then none else some list⟩

def allPeers (now : ℕ) : List (PeerId × List SocketAddr) :=
  (self.inner.entries.map fun entry => (entry.1, active now entry.2)).filter fun p => !p.2.isEmpty

end PeerAddressCache

inductive CacheOp
  | insert (peerId : PeerId) (addr : SocketAddr) (now : ℕ)
  | insertWithTtl (peerId : PeerId) (addr : SocketAddr) (ttl now : ℕ)
  | insertMany (peerId : PeerId) (addrs : List (SocketAddr × ℕ))
  | remove (peerId : PeerId)
  | prune (now : ℕ)
  | lookup (peerId : PeerId) (now : ℕ)
  | allPeers (now : ℕ)

namespace CacheOp

def apply (cache : PeerAddressCache) : CacheOp → PeerAddressCache
  | .insert peerId addr now => cache.insert peerId addr now
  | .insertWithTtl peerId addr ttl now => cache.insertWithTtl peerId addr ttl now
  | .insertMany peerId addrs => cache.insertMany peerId addrs
  | .remove peerId => cache.remove peerId
  | .prune now => cache.prune now
  | .lookup _ _ | .allPeers _ => cache

/-- The instants that the operation reads. -/
def times : CacheOp → List ℕ
  | .insert _ _ now | .insertWithTtl _ _ _ now | .prune now | .lookup _ now | .allPeers now => [now]
  | .insertMany _ addrs => addrs.map Prod.snd
  | .remove _ => []

def isPrune : CacheOp → Bool
  | .prune _ => true
  | _ => false

/-! ## What the cache is for -/

/-- What the operation does to one peer: insertions, and `none` for a removal. -/
def eventsFor (peer : PeerId) : CacheOp → List (Option CachedAddress)
  | .insert peerId addr now => if peerId = peer then [some ⟨addr, now + defaultTtl⟩] else []
  | .insertWithTtl peerId addr ttl now => if peerId = peer then [some ⟨addr, now + ttl⟩] else []
  | .insertMany peerId addrs =>
      if peerId = peer then addrs.map fun a => some ⟨a.1, a.2 + defaultTtl⟩ else []
  | .remove peerId => if peerId = peer then [none] else []
  | .prune _ | .lookup _ _ | .allPeers _ => []

end CacheOp

/-- The cache after a sequence of operations. -/
def cacheAfter (ops : List CacheOp) : PeerAddressCache := ops.foldl CacheOp.apply .new

/-- The addresses whose latest insertion for the peer since its last removal expires after `now`, in the
order of these insertions. -/
def specLookup (ops : List CacheOp) (peer : PeerId) (now : ℕ) : List SocketAddr :=
  active now (LastWins.latest CachedAddress.addr (ops.flatMap (CacheOp.eventsFor peer)))

/-- The clock goes from each reading to the next one, and then to `now`, without going back. -/
def Clocked (ops : List CacheOp) (now : ℕ) : Prop := (ops.flatMap CacheOp.times ++ [now]).Pairwise (· ≤ ·)

instance (ops : List CacheOp) (now : ℕ) : Decidable (Clocked ops now) :=
  inferInstanceAs (Decidable (List.Pairwise _ _))

end OmniMesh.Discovery
