import OmniMesh.Core.Lemmas.Concrete
import OmniMesh.Discovery.Lemmas.Service

/-!
# What peers find out about each other
-/

namespace OmniMesh.Discovery
open OmniMesh.Core

/-- Whatever events, commands and prunings came before, `lookup` shows the endpoints that were announced for
the peer in the last thirty minutes, each once, and `all_peers` lists the peers that have one. -/
theorem lookup_shows_recent {ρ : Type} {f : ρ → Option PeerId} {acts : List (DiscoveryAct ρ)}
    {s : DiscoveryService} (hr : Lts.run (DiscoveryService.step f) .new acts = some s) {now : ℕ}
    (htick : Ticks acts now) :
    (∀ peer saddr, saddr ∈ s.lookup peer now ↔
      ∃ peerId addr t, (peerId, addr, t) ∈ DiscoveryService.told acts ∧ f peerId = some peer ∧
        multiaddrToSocketAddr addr = some saddr ∧ now < t + 1800 * 10 ^ 9) ∧
    (∀ peer, (s.lookup peer now).Nodup) ∧
    ∀ peer addrs, (peer, addrs) ∈ s.allPeers now ↔ addrs = s.lookup peer now ∧ addrs ≠ [] := by
  refine ⟨fun peer saddr => DiscoveryService.mem_lookup_iff hr htick, fun peer => ?_,
    fun peer addrs => PeerAddressCache.mem_allPeers⟩
  rw [DiscoveryService.lookup, DiscoveryService.run_cache hr,
    lookup_cacheAfter (DiscoveryService.clocked_of_ticks htick)]
  exact nodup_specLookup

def homeAddr : SocketAddr := .v4 (Vector.replicate 4 10) 4001

/-- The node registers its address. -/
def registering : List (DiscoveryAct PeerId) := [.send .bootstrap, .send (.registerLocalAddr homeAddr), .recv, .recv]

/-- Another node hears of it, and of a multiaddr without an endpoint; the cache is pruned later. -/
def hearing : List (DiscoveryAct PeerId) :=
  [.event (.identifyReceived (samplePeer 9) [(socketAddrToMultiaddr homeAddr, 5), ([.tcp 80], 6)]),
    .event (.pruneTick 7)]

theorem lookup_shows_recent_hearing :
    ∃ s, Lts.run (DiscoveryService.step some) .new hearing = some s ∧ homeAddr ∈ s.lookup (samplePeer 9) 8 := by
  have hrun : ∃ s, Lts.run (DiscoveryService.step some) .new hearing = some s := ⟨_, rfl⟩
  obtain ⟨s, hr⟩ := hrun
  refine ⟨s, hr, ((lookup_shows_recent hr (by decide)).1 (samplePeer 9) homeAddr).mpr ?_⟩
  exact ⟨samplePeer 9, socketAddrToMultiaddr homeAddr, 5, by decide, rfl, rfl, by decide⟩

/-- An address whose registration was accepted is found under the id of its node, without flow info and
scope, by every node to which it has identified itself since in the last thirty minutes. -/
theorem registered_address_is_found {ρ : Type} {f : ρ → Option PeerId}
    {acts acts' : List (DiscoveryAct ρ)} {s s' : DiscoveryService}
    (hr : Lts.run (DiscoveryService.step f) .new acts = some s) (hdone : s.commands.queue = [])
    (hr' : Lts.run (DiscoveryService.step f) .new acts' = some s') {now : ℕ} (htick : Ticks acts' now)
    {peerId : ρ} {peer : PeerId} (hpeer : f peerId = some peer) {listenAddrs : List (Multiaddr × ℕ)}
    (hidentified : .event (.identifyReceived peerId listenAddrs) ∈ acts')
    (hlisten : ∀ addr ∈ s.external, ∃ t, (addr, t) ∈ listenAddrs ∧ now < t + 1800 * 10 ^ 9) :
    ∀ addr, .registerLocalAddr addr ∈ s.accepted → .new addr.ip addr.port ∈ s'.lookup peer now := by
  intro addr haccepted
  have hexternal := (DiscoveryService.run_obeys hr).external
  rw [hdone] at hexternal
  have hmem : socketAddrToMultiaddr addr ∈ s.external := by
    rw [← List.append_nil s.external]
    refine hexternal ▸ List.mem_filterMap.mpr ⟨_, haccepted, rfl⟩
  obtain ⟨t, ht, hnow⟩ := hlisten _ hmem
  refine (DiscoveryService.mem_lookup_iff hr' htick).mpr ⟨peerId, _, t, ?_, hpeer, round_trip addr, hnow⟩
  refine List.mem_flatMap.mpr ⟨_, List.mem_filterMap.mpr ⟨_, hidentified, rfl⟩, ?_⟩
  exact List.mem_map.mpr ⟨_, ht, rfl⟩

theorem registered_address_is_found_hearing :
    ∃ s s', Lts.run (DiscoveryService.step some) .new registering = some s ∧
      Lts.run (DiscoveryService.step some) .new hearing = some s' ∧
      .registerLocalAddr homeAddr ∈ s.accepted ∧ homeAddr ∈ s'.lookup (samplePeer 9) 8 := by
  have hrun : ∃ s s', Lts.run (DiscoveryService.step some) .new registering = some s ∧
      Lts.run (DiscoveryService.step some) .new hearing = some s' ∧ s.commands.queue = [] ∧
      s.accepted = [.bootstrap, .registerLocalAddr homeAddr] ∧
      s.external = [socketAddrToMultiaddr homeAddr] := ⟨_, _, rfl, rfl, rfl, rfl, rfl⟩
  obtain ⟨s, s', hr, hr', hdone, haccepted, hexternal⟩ := hrun
  have hmem : .registerLocalAddr homeAddr ∈ s.accepted := by
    rw [haccepted]
    decide
  refine ⟨s, s', hr, hr', hmem, ?_⟩
  refine registered_address_is_found hr hdone hr' (by decide) rfl List.mem_cons_self (fun addr haddr => ?_) _ hmem
  rw [hexternal, List.mem_singleton] at haddr
  exact ⟨5, by rw [haddr]; exact List.mem_cons_self, by decide⟩

end OmniMesh.Discovery
