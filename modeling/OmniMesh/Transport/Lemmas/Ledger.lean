import OmniMesh.Transport.Ledger
import OmniMesh.Transport.Lemmas.Pool

/-!
# The ledger of the pool
-/

namespace OmniMesh.Transport
open OmniMesh.Core

variable {peer : PeerId} {info inserted : ConnectionInfo} {later events : List PoolEvent}

/-- What an event that does not reset the entry makes of it. -/
def PoolEvent.change : PoolEvent → ConnectionInfo → ConnectionInfo
  | .updated peerId state, info => if peerId = info.peerId then { info with state } else info
  | .sent peerId bytes, info =>
      if peerId = info.peerId then { info with bytesSent := info.bytesSent + bytes } else info
  | .received peerId bytes, info =>
      if peerId = info.peerId then { info with bytesReceived := info.bytesReceived + bytes } else info
  | _, info => info

theorem getLastD_filterMap_concat {α : Type} (f : PoolEvent → Option α) (e : PoolEvent) (d : α) :
    ((later ++ [e]).filterMap f).getLastD d = (f e).getD ((later.filterMap f).getLastD d) := by
  cases he : f e <;> simp [he]

theorem foldl_filterMap_concat (f : PoolEvent → Option UInt64) (e : PoolEvent) (total : UInt64) :
    ((later ++ [e]).filterMap f).foldl (· + ·) total =
      (f e).elim ((later.filterMap f).foldl (· + ·) total) ((later.filterMap f).foldl (· + ·) total + ·) := by
  cases he : f e <;> simp [he]

namespace ConnectionInfo

theorem after_nil : inserted.after [] = inserted := rfl

theorem after_concat (e : PoolEvent) : inserted.after (later ++ [e]) = e.change (inserted.after later) := by
  simp only [after, getLastD_filterMap_concat, foldl_filterMap_concat]
  cases e with
  | inserted | removed => simp [PoolEvent.change, PoolEvent.state?, PoolEvent.sent?, PoolEvent.received?]
  | updated peerId | sent peerId | received peerId =>
      by_cases hp : peerId = inserted.peerId <;>
        simp [PoolEvent.change, PoolEvent.state?, PoolEvent.sent?, PoolEvent.received?, hp]

end ConnectionInfo

/-! ## What the ledger tells after one more event -/

namespace Ledger

theorem not_tells_nil : ¬ Tells [] peer info := by
  rintro ⟨inserted, later, hsplit, -⟩
  exact Since.not_split_nil hsplit

theorem Tells.peerId (h : Tells events peer info) : info.peerId = peer := by
  obtain ⟨inserted, later, ⟨earlier, -, hstart, -⟩, rfl⟩ := h
  exact of_decide_eq_true hstart

theorem tells_inserted : Tells (events ++ [.inserted inserted]) inserted.peerId info ↔ info = inserted := by
  have hreset : (PoolEvent.inserted inserted).resets inserted.peerId := decide_eq_true rfl
  simp [Tells, Since.split_concat_of_resets hreset, ConnectionInfo.after_nil]

theorem not_tells_removed : ¬ Tells (events ++ [.removed peer]) peer info := by
  have hreset : (PoolEvent.removed peer).resets peer := decide_eq_true rfl
  simp [Tells, Since.split_concat_of_resets hreset]

theorem tells_concat {e : PoolEvent} (he : e.resets peer = false) :
    Tells (events ++ [e]) peer info ↔ ∃ old, Tells events peer old ∧ info = e.change old := by
  simp only [Tells, Since.split_concat_of_not he]
  constructor
  · rintro ⟨inserted, later, ⟨l, rfl, hsplit⟩, rfl⟩
    exact ⟨_, ⟨inserted, l, hsplit, rfl⟩, ConnectionInfo.after_concat e⟩
  · rintro ⟨old, ⟨inserted, l, hsplit, rfl⟩, rfl⟩
    exact ⟨inserted, l ++ [e], ⟨l, rfl, hsplit⟩, (ConnectionInfo.after_concat e).symm⟩

end Ledger

/-! ## The entries of the map -/

namespace ConnectionPool

variable {pool : ConnectionPool}

theorem get_modify {f : ConnectionInfo → ConnectionInfo} {other : PeerId} :
    (pool.modify peer f).get other = (pool.get other).map fun info => if peer = other then f info else info := by
  unfold modify get
  split
  · rename_i info hl
    by_cases hp : peer = other
    · subst hp
      simp [hl]
    · simp [AList.lookup_insert_ne (Ne.symm hp), hp]
  · rename_i hl
    by_cases hp : peer = other
    · subst hp
      simp [hl]
    · simp [hp]

/-- The entries are those of the ledger. -/
def Keeps (pool : ConnectionPool) (events : List PoolEvent) : Prop :=
  ∀ peer info, pool.get peer = some info ↔ Ledger.Tells events peer info

theorem Keeps.insert (h : pool.Keeps events) :
    ConnectionPool.Keeps { pool with connections := pool.connections.insert info.peerId info }
      (events ++ [.inserted info]) := by
  intro peer other
  by_cases hp : peer = info.peerId
  · subst hp
    rw [Ledger.tells_inserted, get, AList.lookup_insert, Option.some.injEq, eq_comm]
  · have hreset : (PoolEvent.inserted info).resets peer = false := decide_eq_false (Ne.symm hp)
    rw [Ledger.tells_concat hreset, get, AList.lookup_insert_ne hp]
    simpa [PoolEvent.change, get] using h peer other

theorem Keeps.remove (h : pool.Keeps events) (removed : PeerId) :
    (pool.remove removed).Keeps (events ++ [.removed removed]) := by
  intro peer info
  by_cases hp : peer = removed
  · subst hp
    simp [Ledger.not_tells_removed, get, ConnectionPool.remove]
  · have hreset : (PoolEvent.removed removed).resets peer = false := decide_eq_false (Ne.symm hp)
    rw [Ledger.tells_concat hreset, get, ConnectionPool.remove, AList.lookup_erase_ne hp]
    simpa [PoolEvent.change, get] using h peer info

theorem Keeps.modify {f : ConnectionInfo → ConnectionInfo} {e : PoolEvent} (h : pool.Keeps events)
    (hreset : ∀ peer, e.resets peer = false)
    (hchange : ∀ info, e.change info = if peer = info.peerId then f info else info) :
    (pool.modify peer f).Keeps (events ++ [e]) := by
  intro other info
  rw [Ledger.tells_concat (hreset other), get_modify, Option.map_eq_some_iff]
  refine exists_congr fun old => ?_
  rw [h other old]
  refine and_congr_right fun hold => ?_
  rw [hchange, hold.peerId, eq_comm]

theorem isEmpty_iff : pool.isEmpty ↔ ∀ peer, pool.get peer = none := by
  unfold isEmpty get
  rw [List.isEmpty_iff]
  constructor
  · intro h peer
    rw [AList.lookup_eq_none, AList.mem_keys, AList.keys, h]
    exact List.not_mem_nil
  · intro h
    rw [List.eq_nil_iff_forall_not_mem]
    rintro ⟨peer, info⟩ hmem
    cases (h peer).symm.trans (AList.mem_lookup_iff.mpr hmem)

theorem isConnected_iff : pool.isConnected peer ↔ ∃ info, pool.get peer = some info ∧ info.state = .connected := by
  unfold isConnected get
  cases pool.connections.lookup peer <;> simp

theorem mem_connectedPeers : peer ∈ pool.connectedPeers ↔ pool.isConnected peer := by
  rw [isConnected_iff, connectedPeers, List.mem_map]
  constructor
  · rintro ⟨⟨key, info⟩, hmem, rfl⟩
    obtain ⟨hmem, hstate⟩ := List.mem_filter.mp hmem
    exact ⟨info, AList.mem_lookup_iff.mpr hmem, of_decide_eq_true hstate⟩
  · rintro ⟨info, hget, hstate⟩
    exact ⟨⟨peer, info⟩, List.mem_filter.mpr ⟨AList.mem_lookup_iff.mp hget, decide_eq_true hstate⟩, rfl⟩

theorem nodup_connectedPeers : pool.connectedPeers.Nodup :=
  List.NodupKeys.sublist List.filter_sublist pool.connections.nodupKeys

end ConnectionPool

namespace Ledger

variable {s t : Ledger} {act : PoolAct} {acts : List PoolAct} {maxConnections : ℕ}

theorem keeps_step (h : s.shared.pool.Keeps s.events) (hs : s.step act = some t) :
    t.shared.pool.Keeps t.events := by
  obtain ⟨shared, hstep, rfl⟩ := Option.map_eq_some_iff.mp hs
  cases act with
  | check task info =>
      simp only [SharedPool.step] at hstep
      simp only [SharedPool.event, Option.toList_none, List.append_nil]
      split at hstep
      · cases hstep
      · split at hstep <;> cases hstep <;> exact h
  | insert task =>
      simp only [SharedPool.step] at hstep
      split at hstep
      · rename_i info hl
        cases hstep
        simp only [SharedPool.event, hl, Option.toList_some]
        exact h.insert
      · cases hstep
  | refuse task =>
      simp only [SharedPool.step] at hstep
      simp only [SharedPool.event, Option.toList_none, List.append_nil]
      split at hstep <;> cases hstep
      exact h
  | remove peerId =>
      cases hstep
      exact h.remove peerId
  | updateState peerId state =>
      cases hstep
      exact h.modify (fun _ => rfl) fun _ => rfl
  | recordBytesSent peerId bytes =>
      cases hstep
      exact h.modify (fun _ => rfl) fun _ => rfl
  | recordBytesReceived peerId bytes =>
      cases hstep
      exact h.modify (fun _ => rfl) fun _ => rfl

theorem run_keeps (hr : Lts.run step (init maxConnections) acts = some s) : s.shared.pool.Keeps s.events := by
  refine Lts.run_invariant (fun _ _ _ h hs => keeps_step h hs) (fun peer info => ?_) hr
  exact iff_of_false (Option.some_ne_none info ∘ Eq.symm) not_tells_nil

end Ledger

end OmniMesh.Transport
