import OmniMesh.Discovery.Multiaddr
import OmniMesh.Lib.Mpsc
import OmniMesh.Lib.Run

/-!
# The discovery service (`omnimesh-discovery/src/service.rs`)

The task of the service takes commands of its users, events of the swarm and ticks, in any order. Of the
swarm only the advertised addresses are kept here; what libp2p makes of them is its own affair.
-/

namespace OmniMesh.Discovery
open OmniMesh.Core

inductive DiscoveryCommand
  | bootstrap
  | registerLocalAddr (addr : SocketAddr)
  deriving DecidableEq

/-- `external` are the addresses that were given to `add_external_address`. `accepted` is a history: the
commands whose `send` has returned `Ok(())`. -/
structure DiscoveryService where
  cache : PeerAddressCache
  commands : Mpsc DiscoveryCommand
  external : List Multiaddr
  bootstraps : ℕ
  accepted : List DiscoveryCommand

/-- `send` is the end of a call of `bootstrap` or `register_local_address`, and `recv` the next round of the
loop with a command. -/
inductive DiscoveryAct (ρ : Type)
  | send (command : DiscoveryCommand)
  | recv
  | event (event : SwarmEvent ρ)

namespace DiscoveryService

def new : DiscoveryService := ⟨.new, .new 64, [], 0, []⟩

def lookup (self : DiscoveryService) (peerId : PeerId) (now : ℕ) : List SocketAddr :=
  self.cache.lookup peerId now

def allPeers (self : DiscoveryService) (now : ℕ) : List (PeerId × List SocketAddr) := self.cache.allPeers now

/-- A command in the loop. That a bootstrap fails is only logged. -/
def execute (self : DiscoveryService) : DiscoveryCommand → DiscoveryService
  | .bootstrap => { self with bootstraps := self.bootstraps + 1 }
  | .registerLocalAddr addr => { self with external := self.external ++ [socketAddrToMultiaddr addr] }

variable {ρ : Type} (fromLibp2pPeerId : ρ → Option PeerId)

def step (self : DiscoveryService) : DiscoveryAct ρ → Option DiscoveryService
  | .send command =>
      match self.commands.send command with
      | .sent commands => some { self with commands, accepted := self.accepted ++ [command] }
      | .full => none
      | .closed => some self
  | .recv =>
      match self.commands.recv true with
      | .item command commands => some ({ self with commands }.execute command)
      | .empty | .closed => none
  | .event event => some { self with cache := event.handle fromLibp2pPeerId self.cache }

end DiscoveryService

/-! ## What a service is told -/

section
variable {ρ : Type}

/-- The multiaddrs that the event names, with the peer and the instant. -/
def SwarmEvent.announcements : SwarmEvent ρ → List (ρ × Multiaddr × ℕ)
  | .mdnsDiscovered list => list
  | .identifyReceived peerId listenAddrs => listenAddrs.map fun a => (peerId, a)
  | .closestPeers peers => peers.flatMap fun peer => peer.2.map fun a => (peer.1, a)
  | .pruneTick _ => []

/-- The instants that the event may read. -/
def SwarmEvent.times : SwarmEvent ρ → List ℕ
  | .pruneTick now => [now]
  | event => event.announcements.map fun a => a.2.2

def DiscoveryAct.event? : DiscoveryAct ρ → Option (SwarmEvent ρ)
  | .event e => some e
  | _ => none

/-- What the service was told, in the order of the events. -/
def DiscoveryService.told (acts : List (DiscoveryAct ρ)) : List (ρ × Multiaddr × ℕ) :=
  (acts.filterMap DiscoveryAct.event?).flatMap SwarmEvent.announcements

/-- The clock goes from each reading to the next one, and then to `now`, without going back. -/
def Ticks (acts : List (DiscoveryAct ρ)) (now : ℕ) : Prop :=
  ((acts.filterMap DiscoveryAct.event?).flatMap SwarmEvent.times ++ [now]).Pairwise (· ≤ ·)

instance (acts : List (DiscoveryAct ρ)) (now : ℕ) : Decidable (Ticks acts now) :=
  inferInstanceAs (Decidable (List.Pairwise _ _))

end

end OmniMesh.Discovery
