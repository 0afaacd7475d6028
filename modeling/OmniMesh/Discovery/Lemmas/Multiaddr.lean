import OmniMesh.Discovery.Lemmas.Cache
import OmniMesh.Discovery.Multiaddr

/-!
# Addresses learnt from multiaddrs
-/

namespace OmniMesh.Discovery
open OmniMesh.Core

/-! ## The last ip and the last port -/

theorem getLast?_filterMap_cons {α β : Type} (f : α → Option β) (p : α) (l : List α) :
    ((p :: l).filterMap f).getLast? = (l.filterMap f).getLast?.or (f p) := by
  cases hp : f p with
  | none => rw [List.filterMap_cons_none hp, Option.or_none]
  | some x =>
      rw [List.filterMap_cons_some hp, List.getLast?_cons]
      cases (l.filterMap f).getLast? <;> rfl

theorem scan_eq (e : Endpoint) (p : Protocol) : e.scan p = ⟨p.ip.or e.ip, p.port.or e.port⟩ := by
  cases p <;> rfl

theorem foldl_scan (e : Endpoint) (addr : Multiaddr) : addr.foldl Endpoint.scan e =
    ⟨(addr.filterMap Protocol.ip).getLast?.or e.ip, (addr.filterMap Protocol.port).getLast?.or e.port⟩ := by
  induction addr generalizing e with
  | nil => rfl
  | cons p addr ih =>
      rw [List.foldl_cons, ih, scan_eq, getLast?_filterMap_cons, getLast?_filterMap_cons, Option.or_assoc,
        Option.or_assoc]

theorem socketAddr_new_inj {ip ip' : IpAddr} {port port' : UInt16}
    (h : SocketAddr.new ip port = SocketAddr.new ip' port') : ip = ip' ∧ port = port' := by
  cases ip with
  | v4 ip =>
      cases ip' with
      | v4 ip' => cases h; exact ⟨rfl, rfl⟩
      | v6 ip' => cases h
  | v6 ip =>
      cases ip' with
      | v4 ip' => cases h
      | v6 ip' => cases h; exact ⟨rfl, rfl⟩

theorem multiaddrToSocketAddr_eq_some {addr : Multiaddr} {saddr : SocketAddr}
    (h : multiaddrToSocketAddr addr = some saddr) : ∃ ip port, saddr = .new ip port ∧
      (addr.filterMap Protocol.ip).getLast? = some ip ∧
      (addr.filterMap Protocol.port).getLast? = some port := by
  rw [multiaddrToSocketAddr, foldl_scan, Option.or_none, Option.or_none] at h
  split at h
  · rename_i ip port he
    obtain ⟨hip, hport⟩ := Endpoint.mk.inj he
    exact ⟨ip, port, (Option.some.inj h).symm, hip, hport⟩
  · cases h

theorem multiaddrToSocketAddr_new {addr : Multiaddr} {ip : IpAddr} {port : UInt16} :
    multiaddrToSocketAddr addr = some (.new ip port) ↔
      (addr.filterMap Protocol.ip).getLast? = some ip ∧
      (addr.filterMap Protocol.port).getLast? = some port := by
  constructor
  · intro h
    obtain ⟨ip', port', hnew, hip, hport⟩ := multiaddrToSocketAddr_eq_some h
    obtain ⟨rfl, rfl⟩ := socketAddr_new_inj hnew
    exact ⟨hip, hport⟩
  · rintro ⟨hip, hport⟩
    rw [multiaddrToSocketAddr, foldl_scan, hip, hport]
    rfl

theorem round_trip (a : SocketAddr) :
    multiaddrToSocketAddr (socketAddrToMultiaddr a) = some (.new a.ip a.port) := by
  cases a <;> rfl

/-! ## What the cache holds -/

section
variable {ρ : Type} {f : ρ → Option PeerId} {cache : PeerAddressCache} {Q : PeerId → SocketAddr → Prop}
  {peerId : ρ} {event : SwarmEvent ρ} {events : List (SwarmEvent ρ)}

/-- All addresses in the cache have the property. -/
def Holds (Q : PeerId → SocketAddr → Prop) (cache : PeerAddressCache) : Prop :=
  ∀ peer, ∀ x ∈ cache.entries peer, Q peer x.addr

theorem Holds.insert {peer saddr now} (h : Holds Q cache) (hq : Q peer saddr) :
    Holds Q (cache.insert peer saddr now) := by
  intro peer' x hx
  rw [PeerAddressCache.insert, PeerAddressCache.entries_insertWithTtl] at hx
  split at hx
  · rename_i heq
    subst heq
    rcases List.mem_append.mp hx with hx | hx
    · exact h _ x (List.mem_filter.mp hx).1
    · rw [List.mem_singleton.mp hx]
      exact hq
  · exact h _ x hx

theorem Holds.prune {now} (h : Holds Q cache) : Holds Q (cache.prune now) := by
  intro peer x hx
  rw [PeerAddressCache.entries_prune] at hx
  exact h peer x (List.mem_filter.mp hx).1

theorem Holds.learn {addr} (h : Holds Q cache)
    (hq : ∀ peer saddr, f peerId = some peer → multiaddrToSocketAddr addr.1 = some saddr → Q peer saddr) :
    Holds Q (learn f peerId cache addr) := by
  unfold Discovery.learn
  split
  · rename_i saddr hs
    split
    · rename_i peer hp
      exact h.insert (hq peer saddr hp hs)
    · exact h
  · exact h

theorem Holds.foldl {β : Type} {step : PeerAddressCache → β → PeerAddressCache} {l : List β}
    (h : Holds Q cache) (hstep : ∀ b ∈ l, ∀ cache, Holds Q cache → Holds Q (step cache b)) :
    Holds Q (l.foldl step cache) := by
  induction l generalizing cache with
  | nil => exact h
  | cons b l ih =>
      obtain ⟨hb, hl⟩ := List.forall_mem_cons.mp hstep
      exact ih (hb cache h) hl

theorem Holds.handle (h : Holds Q cache)
    (hq : ∀ peerId addr peer saddr, event.Advertises peerId addr → f peerId = some peer →
      multiaddrToSocketAddr addr = some saddr → Q peer saddr) : Holds Q (event.handle f cache) := by
  cases event with
  | mdnsDiscovered list =>
      refine h.foldl fun p hp cache hc => hc.learn fun peer saddr => ?_
      exact hq p.1 p.2.1 peer saddr ⟨p.2.2, hp⟩
  | identifyReceived peerId listenAddrs =>
      refine h.foldl fun a ha cache hc => hc.learn fun peer saddr => ?_
      exact hq peerId a.1 peer saddr ⟨rfl, a.2, ha⟩
  | closestPeers peers =>
      refine h.foldl fun p hp cache hc => hc.foldl fun a ha cache hc => hc.learn fun peer saddr => ?_
      exact hq p.1 a.1 peer saddr ⟨p.2, hp, a.2, ha⟩
  | pruneTick now => exact h.prune

theorem holds_discovered (hq : ∀ event ∈ events, ∀ peerId addr peer saddr,
      event.Advertises peerId addr → f peerId = some peer →
      multiaddrToSocketAddr addr = some saddr → Q peer saddr) : Holds Q (discovered f events) := by
  refine Holds.foldl (fun peer x hx => ?_) fun event he cache hc => hc.handle (hq event he)
  cases hx

/-- The address comes from a multiaddr that an event told of the peer. -/
def Learnt (f : ρ → Option PeerId) (events : List (SwarmEvent ρ)) (peer : PeerId) (saddr : SocketAddr) :
    Prop :=
  ∃ event ∈ events, ∃ peerId addr, event.Advertises peerId addr ∧ f peerId = some peer ∧
    multiaddrToSocketAddr addr = some saddr

theorem mem_lookup_discovered {peer saddr now} (h : saddr ∈ (discovered f events).lookup peer now) :
    Learnt f events peer saddr := by
  rw [PeerAddressCache.lookup_eq, active] at h
  obtain ⟨x, hx, rfl⟩ := List.mem_map.mp h
  have hheld : Holds (Learnt f events) (discovered f events) :=
    holds_discovered fun event he peerId addr _ _ hadv hp hs => ⟨event, he, peerId, addr, hadv, hp, hs⟩
  exact hheld peer x (List.mem_filter.mp hx).1

end

end OmniMesh.Discovery
