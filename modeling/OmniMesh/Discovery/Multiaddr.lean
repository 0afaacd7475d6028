import OmniMesh.Discovery.Cache

/-!
# Multiaddrs and what is learnt from them (`omnimesh-discovery/src/service.rs`)
-/

namespace OmniMesh.Discovery
open OmniMesh.Core

/-- A component of a multiaddr. Those that `multiaddr_to_socket_addr` passes over, the circuit apart, are
given by their code and data. -/
inductive Protocol
  | ip4 (ip : Vector UInt8 4)
  | ip6 (ip : Vector UInt8 16)
  | tcp (port : UInt16)
  | udp (port : UInt16)
  | p2pCircuit
  | other (code : Nat) (data : Bytes)
  deriving DecidableEq, Repr

abbrev Multiaddr := List Protocol

/-- The local variables `ip` and `port` of `multiaddr_to_socket_addr`. -/
structure Endpoint where
  ip : Option IpAddr
  port : Option UInt16
  deriving DecidableEq

def Endpoint.scan (self : Endpoint) : Protocol → Endpoint
  | .ip4 ipv4 => { self with ip := some (.v4 ipv4) }
  | .ip6 ipv6 => { self with ip := some (.v6 ipv6) }
  | .tcp p => { self with port := some p }
  | .udp p => { self with port := some p }
  | _ => self

def multiaddrToSocketAddr (addr : Multiaddr) : Option SocketAddr :=
  match addr.foldl Endpoint.scan ⟨none, none⟩ with
  | ⟨some ip, some port⟩ => some (.new ip port)
  | _ => none

def socketAddrToMultiaddr (addr : SocketAddr) : Multiaddr :=
  match addr.ip with
  | .v4 ip => [.ip4 ip, .udp addr.port]
  | .v6 ip => [.ip6 ip, .udp addr.port]

/-! ## The event handlers -/

section
variable {ρ : Type}

/-- The events from which addresses are learnt. Every multiaddr comes with the instant at which its
address would be inserted. -/
inductive SwarmEvent (ρ : Type)
  | mdnsDiscovered (list : List (ρ × Multiaddr × ℕ))
  | identifyReceived (peerId : ρ) (listenAddrs : List (Multiaddr × ℕ))
  | closestPeers (peers : List (ρ × List (Multiaddr × ℕ)))
  | pruneTick (now : ℕ)

variable (fromLibp2pPeerId : ρ → Option PeerId)

def learn (peerId : ρ) (cache : PeerAddressCache) (addr : Multiaddr × ℕ) : PeerAddressCache :=
  match multiaddrToSocketAddr addr.1 with
  | some saddr =>
      match fromLibp2pPeerId peerId with
      | some omniPeerId => cache.insert omniPeerId saddr addr.2
      | none => cache
  | none => cache

def SwarmEvent.handle (cache : PeerAddressCache) : SwarmEvent ρ → PeerAddressCache
  | .mdnsDiscovered list => list.foldl (fun cache p => learn fromLibp2pPeerId p.1 cache p.2) cache
  | .identifyReceived peerId listenAddrs => listenAddrs.foldl (learn fromLibp2pPeerId peerId) cache
  | .closestPeers peers =>
      peers.foldl (fun cache peer => peer.2.foldl (learn fromLibp2pPeerId peer.1) cache) cache
  | .pruneTick now => cache.prune now

/-- The cache of a service after its events. -/
def discovered (events : List (SwarmEvent ρ)) : PeerAddressCache :=
  events.foldl (SwarmEvent.handle fromLibp2pPeerId) .new

/-- The event tells that the peer has the multiaddr. -/
def SwarmEvent.Advertises (peerId : ρ) (addr : Multiaddr) : SwarmEvent ρ → Prop
  | .mdnsDiscovered list => ∃ now, (peerId, addr, now) ∈ list
  | .identifyReceived peer listenAddrs => peer = peerId ∧ ∃ now, (addr, now) ∈ listenAddrs
  | .closestPeers peers => ∃ addrs, (peerId, addrs) ∈ peers ∧ ∃ now, (addr, now) ∈ addrs
  | .pruneTick _ => False

end

/-! ## Real endpoints -/

def Protocol.ip : Protocol → Option IpAddr
  | .ip4 ip => some (.v4 ip)
  | .ip6 ip => some (.v6 ip)
  | _ => none

def Protocol.port : Protocol → Option UInt16
  | .tcp port | .udp port => some port
  | _ => none

/-- The address stands right before the port, and there is no relay. -/
def HasEndpoint (addr : Multiaddr) (ip : IpAddr) (port : UInt16) : Prop :=
  (∃ before p q after, addr = before ++ p :: q :: after ∧ p.ip = some ip ∧ q.port = some port) ∧
    .p2pCircuit ∉ addr

/-- The last ip and the last port of the multiaddr belong together. -/
def OneHop (addr : Multiaddr) : Prop :=
  ∀ ip port, (addr.filterMap Protocol.ip).getLast? = some ip →
    (addr.filterMap Protocol.port).getLast? = some port → HasEndpoint addr ip port

end OmniMesh.Discovery
