import Mathlib.Data.List.Induction
import OmniMesh.Discovery.Cache

/-!
# The cache shows the latest insertions
-/

namespace OmniMesh.Discovery
open OmniMesh.Core LastWins

namespace PeerAddressCache

variable {cache : PeerAddressCache} {peer peer' : PeerId} {addr : SocketAddr} {ttl now : ℕ}
  {addrs : List SocketAddr}

def entries (cache : PeerAddressCache) (peer : PeerId) : List CachedAddress :=
  (cache.inner.lookup peer).getD []

theorem lookup_eq : cache.lookup peer now = active now (cache.entries peer) := by
  unfold lookup entries
  cases cache.inner.lookup peer <;> rfl

theorem entries_insertWithTtl : (cache.insertWithTtl peer' addr ttl now).entries peer =
    if peer' = peer then
      (cache.entries peer).filter (fun x => x.addr ≠ addr) ++ [⟨addr, now + ttl⟩]
    else cache.entries peer := by
  simp only [entries, insertWithTtl]
  split
  · rename_i h
    subst h
    rw [AList.lookup_insert]
    rfl
  · rename_i h
    rw [AList.lookup_insert_ne (Ne.symm h)]

theorem entries_remove : (cache.remove peer').entries peer =
    if peer' = peer then [] else cache.entries peer := by
  simp only [entries, remove]
  split
  · rename_i h
    subst h
    rw [AList.lookup_erase]
    rfl
  · rename_i h
    rw [AList.lookup_erase_ne (Ne.symm h)]

theorem entries_prune : (cache.prune now).entries peer =
    (cache.entries peer).filter fun x => x.expiresAt > now := by
  simp only [entries, prune, Map.lookup_retain]
  cases cache.inner.lookup peer with
  | none => rfl
  | some list =>
      simp only [Option.bind_some, Option.getD_some]
      split
      · rename_i hempty
        rw [List.isEmpty_iff.mp hempty]
        rfl
      · rfl

theorem mem_allPeers : (peer, addrs) ∈ cache.allPeers now ↔
    addrs = cache.lookup peer now ∧ addrs ≠ [] := by
  simp only [allPeers, List.mem_filter, List.mem_map, Prod.mk.injEq, Bool.not_eq_true',
    List.isEmpty_eq_false_iff]
  refine and_congr_left fun hne => ?_
  rw [lookup_eq, entries]
  constructor
  · rintro ⟨⟨peer', list⟩, hmem, rfl, rfl⟩
    rw [show cache.inner.lookup peer' = some list from AList.mem_lookup_iff.mpr hmem]
    rfl
  · intro heq
    cases hl : cache.inner.lookup peer with
    | none =>
        rw [hl] at heq
        exact absurd heq hne
    | some list =>
        rw [hl] at heq
        exact ⟨⟨peer, list⟩, AList.mem_lookup_iff.mp hl, rfl, heq.symm⟩

theorem nodup_allPeers : ((cache.allPeers now).map Prod.fst).Nodup := by
  have hkeys : ((cache.inner.entries.map fun e => (e.1, active now e.2)).map Prod.fst).Nodup := by
    rw [List.map_map]
    exact cache.inner.nodupKeys
  exact hkeys.sublist (List.filter_sublist.map _)

end PeerAddressCache

/-! ## Operations -/

section
variable {cache : PeerAddressCache} {op : CacheOp} {ops ops' : List CacheOp} {peer : PeerId} {now : ℕ}
  {stream : PeerId → List (Option CachedAddress)}

/-- What lookups at `now` see of the cache is what the streams have left behind. -/
def Tracks (now : ℕ) (cache : PeerAddressCache) (stream : PeerId → List (Option CachedAddress)) : Prop :=
  ∀ peer, Shows CachedAddress.addr (fun x => x.expiresAt > now) (cache.entries peer) (stream peer)

theorem Tracks.insertWithTtl (h : Tracks now cache stream) (peer' : PeerId) (addr : SocketAddr)
    (ttl t : ℕ) : Tracks now (cache.insertWithTtl peer' addr ttl t) fun peer =>
      stream peer ++ if peer' = peer then [some ⟨addr, t + ttl⟩] else [] := by
  intro peer
  by_cases hp : peer' = peer
  · simp only [PeerAddressCache.entries_insertWithTtl, hp, if_true]
    exact (h peer).put ⟨addr, t + ttl⟩
  · simp only [PeerAddressCache.entries_insertWithTtl, hp, if_false, List.append_nil]
    exact h peer

theorem Tracks.insertMany (h : Tracks now cache stream) (peer' : PeerId)
    (addrs : List (SocketAddr × ℕ)) : Tracks now (cache.insertMany peer' addrs) fun peer =>
      stream peer ++ if peer' = peer then addrs.map fun a => some ⟨a.1, a.2 + defaultTtl⟩ else [] := by
  induction addrs generalizing cache stream with
  | nil =>
      intro peer
      simp only [List.map_nil, ite_self, List.append_nil]
      exact h peer
  | cons a addrs ih =>
      intro peer
      have hrest := ih (h.insertWithTtl peer' a.1 defaultTtl a.2) peer
      by_cases hp : peer' = peer
      · simp only [hp, if_true, List.append_assoc] at hrest ⊢
        exact hrest
      · simp only [hp, if_false, List.append_nil] at hrest ⊢
        exact hrest

theorem Tracks.apply (h : Tracks now cache stream) (htimes : ∀ t ∈ op.times, t ≤ now) :
    Tracks now (op.apply cache) fun peer => stream peer ++ op.eventsFor peer := by
  cases op with
  | insert peer' addr t => exact h.insertWithTtl peer' addr defaultTtl t
  | insertWithTtl peer' addr ttl t => exact h.insertWithTtl peer' addr ttl t
  | insertMany peer' addrs => exact h.insertMany peer' addrs
  | remove peer' =>
      intro peer
      simp only [CacheOp.apply, CacheOp.eventsFor, PeerAddressCache.entries_remove]
      split
      · exact shows_clear
      · rw [List.append_nil]
        exact h peer
  | prune t =>
      intro peer
      simp only [CacheOp.apply, CacheOp.eventsFor, PeerAddressCache.entries_prune, List.append_nil]
      -- what has expired at `t` has expired at `now`
      apply (h peer).prune
      intro x hx
      have ht := htimes t List.mem_cons_self
      simp only [gt_iff_lt, decide_eq_true_eq] at hx ⊢
      exact lt_of_le_of_lt ht hx
  | lookup _ _ =>
      intro peer
      simpa [CacheOp.apply, CacheOp.eventsFor] using h peer
  | allPeers _ =>
      intro peer
      simpa [CacheOp.apply, CacheOp.eventsFor] using h peer

/-! ## Sequences -/

theorem tracks_cacheAfter (htimes : ∀ t ∈ ops.flatMap CacheOp.times, t ≤ now) :
    Tracks now (cacheAfter ops) fun peer => ops.flatMap (CacheOp.eventsFor peer) := by
  induction ops using List.reverseRecOn with
  | nil => exact fun _ => shows_nil
  | append_singleton ops op ih =>
      simp only [List.flatMap_append, List.mem_append, List.flatMap_singleton] at htimes
      have hstep := (ih fun t ht => htimes t (.inl ht)).apply fun t ht => htimes t (.inr ht)
      simpa [cacheAfter, List.flatMap_append] using hstep

theorem Clocked.times_le (h : Clocked ops now) : ∀ t ∈ ops.flatMap CacheOp.times, t ≤ now := by
  intro t ht
  exact (List.pairwise_append.mp h).2.2 t ht now List.mem_cons_self

theorem lookup_cacheAfter (h : Clocked ops now) :
    (cacheAfter ops).lookup peer now = specLookup ops peer now := by
  rw [PeerAddressCache.lookup_eq, specLookup, active, active, tracks_cacheAfter h.times_le peer]

theorem nodup_specLookup : (specLookup ops peer now).Nodup :=
  nodup_latest.sublist (List.filter_sublist.map _)

theorem flatMap_eventsFor_filter :
    (ops.filter fun op => !op.isPrune).flatMap (CacheOp.eventsFor peer) =
      ops.flatMap (CacheOp.eventsFor peer) := by
  induction ops with
  | nil => rfl
  | cons op ops ih =>
      cases hp : op.isPrune with
      | false => simp [hp, ih]
      | true =>
          have hop : op.eventsFor peer = [] := by
            cases op <;> first | rfl | cases hp
          simp [hp, ih, hop]

theorem specLookup_congr
    (h : (ops'.filter fun op => !op.isPrune) = ops.filter fun op => !op.isPrune) :
    specLookup ops' peer now = specLookup ops peer now := by
  rw [specLookup, specLookup, ← flatMap_eventsFor_filter, h, flatMap_eventsFor_filter]

end

end OmniMesh.Discovery
