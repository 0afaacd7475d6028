import Mathlib.Data.List.Flatten
import OmniMesh.Discovery.Lemmas.Cache
import OmniMesh.Discovery.Lemmas.Multiaddr
import OmniMesh.Discovery.Service

/-!
# What a discovery service knows
-/

namespace OmniMesh.Discovery
open OmniMesh.Core

variable {ρ : Type} {f : ρ → Option PeerId} {peer : PeerId} {now : ℕ}

/-! ## Events are operations of the cache -/

/-- The insertion that an announcement causes. -/
def insertion (f : ρ → Option PeerId) (a : ρ × Multiaddr × ℕ) : Option CacheOp :=
  match multiaddrToSocketAddr a.2.1, f a.1 with
  | some saddr, some peer => some (.insert peer saddr a.2.2)
  | _, _ => none

def SwarmEvent.ops (f : ρ → Option PeerId) : SwarmEvent ρ → List CacheOp
  | .pruneTick now => [.prune now]
  | event => event.announcements.filterMap (insertion f)

theorem learn_eq (cache : PeerAddressCache) (a : ρ × Multiaddr × ℕ) :
    learn f a.1 cache a.2 = (insertion f a).toList.foldl CacheOp.apply cache := by
  unfold learn insertion
  cases multiaddrToSocketAddr a.2.1 with
  | none => rfl
  | some saddr => cases f a.1 <;> rfl

theorem foldl_learn (cache : PeerAddressCache) (as : List (ρ × Multiaddr × ℕ)) :
    as.foldl (fun cache a => learn f a.1 cache a.2) cache =
      (as.filterMap (insertion f)).foldl CacheOp.apply cache := by
  induction as generalizing cache with
  | nil => rfl
  | cons a as ih =>
      rw [List.foldl_cons, ih, learn_eq, List.filterMap_cons]
      cases insertion f a <;> rfl

theorem SwarmEvent.handle_eq (event : SwarmEvent ρ) (cache : PeerAddressCache) :
    event.handle f cache = (event.ops f).foldl CacheOp.apply cache := by
  cases event with
  | mdnsDiscovered list => exact foldl_learn cache list
  | identifyReceived peerId listenAddrs =>
      have h := foldl_learn (f := f) cache (listenAddrs.map fun a => (peerId, a))
      rw [List.foldl_map] at h
      exact h
  | closestPeers peers =>
      have h := foldl_learn (f := f) cache (peers.flatMap fun peer => peer.2.map fun a => (peer.1, a))
      rw [List.foldl_flatMap] at h
      simp only [List.foldl_map] at h
      exact h
  | pruneTick now => rfl

theorem times_insertion (as : List (ρ × Multiaddr × ℕ)) :
    ((as.filterMap (insertion f)).flatMap CacheOp.times).Sublist (as.map fun a => a.2.2) := by
  induction as with
  | nil => exact .slnil
  | cons a as ih =>
      rw [List.map_cons]
      cases hinsert : insertion f a with
      | none =>
          rw [List.filterMap_cons_none hinsert]
          exact ih.cons _
      | some op =>
          have htimes : op.times = [a.2.2] := by
            unfold insertion at hinsert
            split at hinsert <;> cases hinsert
            rfl
          rw [List.filterMap_cons_some hinsert, List.flatMap_cons, htimes]
          exact ih.cons_cons _

theorem SwarmEvent.times_ops (event : SwarmEvent ρ) :
    ((event.ops f).flatMap CacheOp.times).Sublist event.times := by
  cases event with
  | pruneTick now => exact .refl _
  | _ => exact times_insertion _

theorem SwarmEvent.times_announcements (event : SwarmEvent ρ) :
    (event.announcements.map fun a => a.2.2).Sublist event.times := by
  cases event with
  | pruneTick now => exact List.nil_sublist _
  | _ => exact .refl _

/-! ## One peer -/

/-- What an announcement puts into the cache for a peer. -/
def cachedFor (f : ρ → Option PeerId) (peer : PeerId) (a : ρ × Multiaddr × ℕ) : Option CachedAddress :=
  match multiaddrToSocketAddr a.2.1 with
  | some saddr => if f a.1 = some peer then some ⟨saddr, a.2.2 + defaultTtl⟩ else none
  | none => none

theorem cachedFor_eq_some {a : ρ × Multiaddr × ℕ} {x : CachedAddress} : cachedFor f peer a = some x ↔
    f a.1 = some peer ∧ multiaddrToSocketAddr a.2.1 = some x.addr ∧ x.expiresAt = a.2.2 + defaultTtl := by
  obtain ⟨addr, expiresAt⟩ := x
  unfold cachedFor
  cases multiaddrToSocketAddr a.2.1 with
  | none => simp
  | some saddr =>
      simp only [Option.ite_none_right_eq_some, Option.some.injEq, CachedAddress.mk.injEq]
      exact and_congr_right fun _ => and_congr_right fun _ => eq_comm

theorem eventsFor_insertion (as : List (ρ × Multiaddr × ℕ)) :
    (as.filterMap (insertion f)).flatMap (CacheOp.eventsFor peer) =
      (as.filterMap (cachedFor f peer)).map some := by
  induction as with
  | nil => rfl
  | cons a as ih =>
      have hone : ((insertion f a).toList).flatMap (CacheOp.eventsFor peer) =
          (cachedFor f peer a).toList.map some := by
        unfold insertion cachedFor
        cases multiaddrToSocketAddr a.2.1 with
        | none => rfl
        | some saddr =>
            cases hf : f a.1 with
            | none => rfl
            | some p =>
                by_cases hp : p = peer
                · simp [CacheOp.eventsFor, hp]
                · simp [CacheOp.eventsFor, hp]
      rw [List.filterMap_cons, List.filterMap_cons]
      cases hi : insertion f a <;> cases hc : cachedFor f peer a <;>
        simp_all [List.flatMap_cons]

theorem SwarmEvent.eventsFor_ops (event : SwarmEvent ρ) :
    (event.ops f).flatMap (CacheOp.eventsFor peer) =
      (event.announcements.filterMap (cachedFor f peer)).map some := by
  cases event with
  | pruneTick now => rfl
  | _ => exact eventsFor_insertion _

/-! ## Runs -/

namespace DiscoveryService

variable {s t : DiscoveryService} {act : DiscoveryAct ρ} {acts : List (DiscoveryAct ρ)}

theorem cache_of_step (hs : s.step f act = some t) :
    t.cache = ((act.event?.toList.flatMap (SwarmEvent.ops f)).foldl CacheOp.apply s.cache) := by
  cases act with
  | send command =>
      simp only [step] at hs
      split at hs <;> cases hs <;> rfl
  | recv =>
      simp only [step] at hs
      split at hs
      · rename_i command commands _
        cases hs
        cases command <;> rfl
      · cases hs
      · cases hs
  | event e =>
      cases hs
      simp [DiscoveryAct.event?, SwarmEvent.handle_eq]

theorem run_cache (hr : Lts.run (step f) new acts = some s) :
    s.cache = cacheAfter ((acts.filterMap DiscoveryAct.event?).flatMap (SwarmEvent.ops f)) := by
  have hstart : new.cache = cacheAfter (([] : List (SwarmEvent ρ)).flatMap (SwarmEvent.ops f)) := rfl
  refine Lts.run_filterMap
    (I := fun s events => s.cache = cacheAfter (events.flatMap (SwarmEvent.ops f))) ?_ hstart hr
  intro s act t events _ hcache hs
  rw [cache_of_step hs, hcache, List.flatMap_append, cacheAfter, cacheAfter, List.foldl_append]

/-! ## The clock -/

theorem clocked_of_ticks (h : Ticks acts now) :
    Clocked ((acts.filterMap DiscoveryAct.event?).flatMap (SwarmEvent.ops f)) now := by
  rw [Clocked, List.flatMap_assoc]
  exact h.sublist ((List.Sublist.flatMap_right _ fun event _ => event.times_ops).append (.refl _))

theorem told_pairwise (h : Ticks acts now) : (told acts).Pairwise fun a b => a.2.2 ≤ b.2.2 := by
  have htimes : ((told acts).map fun a => a.2.2).Pairwise (· ≤ ·) := by
    rw [told, List.map_flatMap]
    exact (List.pairwise_append.mp h).1.sublist (List.Sublist.flatMap_right _ fun event _ => event.times_announcements)
  exact List.pairwise_map.mp htimes

/-- An address is shown as long as one of its announcements is younger than the time to live. -/
theorem mem_lookup_iff (hr : Lts.run (step f) new acts = some s) (htick : Ticks acts now) {saddr : SocketAddr} :
    saddr ∈ s.lookup peer now ↔ ∃ peerId addr t, (peerId, addr, t) ∈ told acts ∧ f peerId = some peer ∧
      multiaddrToSocketAddr addr = some saddr ∧ now < t + defaultTtl := by
  have hevents : ((acts.filterMap DiscoveryAct.event?).flatMap (SwarmEvent.ops f)).flatMap
      (CacheOp.eventsFor peer) = ((told acts).filterMap (cachedFor f peer)).map some := by
    rw [List.flatMap_assoc, funext SwarmEvent.eventsFor_ops, told, List.filterMap_flatMap, List.map_flatMap]
  have hlater : ((told acts).filterMap (cachedFor f peer)).Pairwise fun x y =>
      now < x.expiresAt → now < y.expiresAt := by
    refine (told_pairwise htick).filterMap _ fun a b hab x hx y hy hnow => ?_
    obtain ⟨-, -, hx⟩ := cachedFor_eq_some.mp hx
    obtain ⟨-, -, hy⟩ := cachedFor_eq_some.mp hy
    omega
  rw [lookup, run_cache hr, lookup_cacheAfter (clocked_of_ticks htick), specLookup, active, hevents]
  simp only [List.mem_map, List.mem_filter, gt_iff_lt, decide_eq_true_eq]
  have hiff : (∃ x ∈ LastWins.latest CachedAddress.addr (((told acts).filterMap (cachedFor f peer)).map some),
      x.addr = saddr ∧ now < x.expiresAt) ↔
      ∃ x ∈ (told acts).filterMap (cachedFor f peer), x.addr = saddr ∧ now < x.expiresAt :=
    LastWins.exists_latest_iff hlater
  constructor
  · rintro ⟨x, ⟨hx, hnow⟩, haddr⟩
    obtain ⟨y, hy, hyaddr, hynow⟩ := hiff.mp ⟨x, hx, haddr, hnow⟩
    obtain ⟨⟨peerId, addr, t⟩, htold, hcached⟩ := List.mem_filterMap.mp hy
    obtain ⟨hpeer, hsaddr, hexpires⟩ := cachedFor_eq_some.mp hcached
    exact ⟨peerId, addr, t, htold, hpeer, hyaddr ▸ hsaddr, hexpires ▸ hynow⟩
  · rintro ⟨peerId, addr, t, htold, hpeer, hsaddr, hnow⟩
    have hcached : cachedFor f peer (peerId, addr, t) = some ⟨saddr, t + defaultTtl⟩ :=
      cachedFor_eq_some.mpr ⟨hpeer, hsaddr, rfl⟩
    obtain ⟨x, hx, haddr, hxnow⟩ := hiff.mpr ⟨_, List.mem_filterMap.mpr ⟨_, htold, hcached⟩, rfl, hnow⟩
    exact ⟨x, ⟨hx, hxnow⟩, haddr⟩

/-! ## Commands -/

def registered (commands : List DiscoveryCommand) : List Multiaddr :=
  commands.filterMap fun
    | .registerLocalAddr addr => some (socketAddrToMultiaddr addr)
    | .bootstrap => none

/-- The commands are executed once each in the order of their calls. -/
structure Obeys (s : DiscoveryService) : Prop where
  external : s.external ++ registered s.commands.queue = registered s.accepted
  bootstraps : s.bootstraps + s.commands.queue.count .bootstrap = s.accepted.count .bootstrap

theorem new_obeys : new.Obeys := ⟨rfl, rfl⟩

theorem Obeys.step (h : s.Obeys) (hs : s.step f act = some t) : t.Obeys := by
  cases act with
  | send command =>
      simp only [DiscoveryService.step] at hs
      split at hs
      · rename_i commands hsent
        cases hs
        obtain ⟨-, -, hqueue, -⟩ := Mpsc.send_sent hsent
        refine ⟨?_, ?_⟩
        · simp only [hqueue, registered, List.filterMap_append]
          rw [← List.append_assoc]
          exact congrArg (· ++ _) h.external
        · simp only [hqueue, List.count_append]
          rw [← add_assoc, h.bootstraps]
      · cases hs
      · cases hs
        exact h
  | recv =>
      simp only [DiscoveryService.step] at hs
      split at hs
      · rename_i command commands hitem
        cases hs
        obtain ⟨hqueue, -⟩ := Mpsc.recv_item hitem
        obtain ⟨hexternal, hbootstraps⟩ := h
        rw [hqueue] at hexternal hbootstraps
        cases command with
        | bootstrap =>
            rw [List.count_cons_self] at hbootstraps
            exact ⟨hexternal, by simp only [execute]; omega⟩
        | registerLocalAddr addr =>
            rw [List.count_cons_of_ne (by simp)] at hbootstraps
            refine ⟨?_, hbootstraps⟩
            simp only [execute, List.append_assoc]
            exact hexternal
      · cases hs
      · cases hs
  | event e =>
      cases hs
      exact ⟨h.external, h.bootstraps⟩

theorem run_obeys (hr : Lts.run (DiscoveryService.step f) new acts = some s) : s.Obeys :=
  Lts.run_invariant (fun _ _ _ h hs => h.step hs) new_obeys hr

end DiscoveryService

end OmniMesh.Discovery
