import OmniMesh.Core.Lemmas.Concrete
import OmniMesh.Discovery.Lemmas.Cache
import OmniMesh.Discovery.Lemmas.Multiaddr

/-!
# Discovery
-/

namespace OmniMesh.Discovery
open OmniMesh.Core

/-! ## The address cache -/

/-- The cache shows the latest insertions that have not expired, to `lookup` and to `all_peers`, and
`prune` changes nothing of that. -/
theorem cache_refines_latest {ops : List CacheOp} {now : ℕ} (hclock : Clocked ops now) :
    (∀ peer, (cacheAfter ops).lookup peer now = specLookup ops peer now ∧
      (specLookup ops peer now).Nodup) ∧
    (∀ peer addrs, (peer, addrs) ∈ (cacheAfter ops).allPeers now ↔
      addrs = (cacheAfter ops).lookup peer now ∧ addrs ≠ []) ∧
    (((cacheAfter ops).allPeers now).map Prod.fst).Nodup ∧
    ∀ ops', Clocked ops' now →
      (ops'.filter fun op => !op.isPrune) = (ops.filter fun op => !op.isPrune) →
      (∀ peer, (cacheAfter ops').lookup peer now = (cacheAfter ops).lookup peer now) ∧
      ∀ p, p ∈ (cacheAfter ops').allPeers now ↔ p ∈ (cacheAfter ops).allPeers now := by
  refine ⟨fun peer => ⟨lookup_cacheAfter hclock, nodup_specLookup⟩,
    fun peer addrs => PeerAddressCache.mem_allPeers, PeerAddressCache.nodup_allPeers,
    fun ops' hclock' hsame => ?_⟩
  have hlookup : ∀ peer, (cacheAfter ops').lookup peer now = (cacheAfter ops).lookup peer now := by
    intro peer
    rw [lookup_cacheAfter hclock', lookup_cacheAfter hclock, specLookup_congr hsame]
  refine ⟨hlookup, fun p => ?_⟩
  rw [PeerAddressCache.mem_allPeers, PeerAddressCache.mem_allPeers, hlookup]

def portOf (port : UInt16) : SocketAddr := .v4 #v[127, 0, 0, 1] port

/-- The first address comes back with a shorter life, and the cache is pruned after its end. -/
def shortened : List CacheOp :=
  [.insertWithTtl (samplePeer 7) (portOf 1) 10 0, .insertWithTtl (samplePeer 7) (portOf 2) 100 1,
    .insertWithTtl (samplePeer 7) (portOf 1) 5 2, .lookup (samplePeer 7) 3, .prune 8]

theorem cache_refines_latest_shortened :
    (cacheAfter (shortened.take 4)).lookup (samplePeer 7) 3 = [portOf 2, portOf 1] ∧
      (cacheAfter shortened).lookup (samplePeer 7) 9 = [portOf 2] := by
  have hfirst : Clocked (shortened.take 4) 3 := by decide
  have hsecond : Clocked shortened 9 := by decide
  exact ⟨((cache_refines_latest hfirst).1 (samplePeer 7)).1.trans (by decide),
    ((cache_refines_latest hsecond).1 (samplePeer 7)).1.trans (by decide)⟩

/-! ## Endpoints -/

/-- The socket address of a multiaddr is an endpoint that it names, and not a relay's, exactly when its last
ip and its last port belong to one hop; so the addresses of a peer are real when all it advertises is of
that form. A socket address without flow info and scope survives the way through a multiaddr. -/
theorem endpoint_real_iff_oneHop {ρ : Type} (addr : Multiaddr) (fromLibp2pPeerId : ρ → Option PeerId)
    (events : List (SwarmEvent ρ)) :
    ((∀ ip port, multiaddrToSocketAddr addr = some (.new ip port) → HasEndpoint addr ip port) ↔
      OneHop addr) ∧
    ((∀ event ∈ events, ∀ peerId addr, event.Advertises peerId addr → OneHop addr) →
      ∀ peer now saddr, saddr ∈ (discovered fromLibp2pPeerId events).lookup peer now →
        ∃ event ∈ events, ∃ peerId addr ip port, event.Advertises peerId addr ∧
          fromLibp2pPeerId peerId = some peer ∧ saddr = .new ip port ∧ HasEndpoint addr ip port) ∧
    (∀ ip port, multiaddrToSocketAddr (socketAddrToMultiaddr (.v4 ip port)) = some (.v4 ip port)) ∧
    ∀ ip port, multiaddrToSocketAddr (socketAddrToMultiaddr (.v6 ip port 0 0)) = some (.v6 ip port 0 0) := by
  refine ⟨?_, ?_, fun ip port => round_trip _, fun ip port => round_trip _⟩
  · constructor
    · intro h ip port hip hport
      exact h ip port (multiaddrToSocketAddr_new.mpr ⟨hip, hport⟩)
    · intro h ip port hsome
      obtain ⟨hip, hport⟩ := multiaddrToSocketAddr_new.mp hsome
      exact h ip port hip hport
  · intro hhop peer now saddr hmem
    obtain ⟨event, he, peerId, addr, hadv, hp, hs⟩ := mem_lookup_discovered hmem
    obtain ⟨ip, port, hnew, hip, hport⟩ := multiaddrToSocketAddr_eq_some hs
    exact ⟨event, he, peerId, addr, ip, port, hadv, hp, hnew, hhop event he peerId addr hadv ip port hip hport⟩

def aRelay : Vector UInt8 4 := #v[203, 0, 113, 9]

/-- A peer behind a relay: the relay's address, then the circuit. -/
def relayed : Multiaddr := [.ip4 aRelay, .udp 4001, .p2pCircuit]

/-- The port of the first hop and the address of the second. -/
def layered : Multiaddr := [.ip4 aRelay, .tcp 443, .ip4 (Vector.replicate 4 10)]

theorem not_hasEndpoint_layered : ¬ HasEndpoint layered (.v4 (Vector.replicate 4 10)) 443 := by
  rintro ⟨⟨before, p, q, after, heq, hip, hport⟩, -⟩
  rcases before with _ | ⟨x, _ | ⟨y, before⟩⟩
  · cases heq
    exact absurd hip (by decide)
  · cases heq
    cases hip
  · have := congrArg List.length heq
    simp [layered] at this
    omega

/-- The address of the relay goes into the cache as the peer's, and so does one of two hops. -/
theorem endpoint_mixes_hops :
    multiaddrToSocketAddr relayed = some (.new (.v4 aRelay) 4001) ∧
    ¬ HasEndpoint relayed (.v4 aRelay) 4001 ∧
    multiaddrToSocketAddr layered = some (.new (.v4 (Vector.replicate 4 10)) 443) ∧
    ¬ HasEndpoint layered (.v4 (Vector.replicate 4 10)) 443 ∧
    (discovered some [.identifyReceived (samplePeer 7) [(relayed, 0), (layered, 1)]]).lookup (samplePeer 7) 2 =
      [.v4 aRelay 4001, .v4 (Vector.replicate 4 10) 443] := by
  refine ⟨rfl, fun h => h.2 (by decide), rfl, not_hasEndpoint_layered, ?_⟩
  decide

end OmniMesh.Discovery
