import OmniMesh.Core.Lemmas.Concrete
import OmniMesh.Transport.Lemmas.Ledger

/-!
# What the pool tells about its connections
-/

namespace OmniMesh.Transport
open OmniMesh.Core

/-- Whatever the tasks do to the pool, `get` finds a peer exactly if it was not removed after its last
insertion. It then shows the state that was set last since, and what was recorded in all since, up to the
wrapping of the counters. `connected_peers` has each peer once whose state is that it is connected. -/
theorem pool_keeps_ledger {maxConnections : ℕ} {acts : List PoolAct} {s : Ledger}
    (hr : Lts.run Ledger.step (.init maxConnections) acts = some s) :
    (∀ peer info, s.shared.pool.get peer = some info ↔
      ∃ inserted later, Since.Split (PoolEvent.resets peer) s.events (.inserted inserted) later ∧
        info = inserted.after later) ∧
    (s.shared.pool.isEmpty ↔ ∀ peer info, ¬ Ledger.Tells s.events peer info) ∧
    s.shared.pool.connectedPeers.Nodup ∧
    ∀ peer, (peer ∈ s.shared.pool.connectedPeers ↔ s.shared.pool.isConnected peer) ∧
      (s.shared.pool.isConnected peer ↔
        ∃ info, Ledger.Tells s.events peer info ∧ info.state = .connected) := by
  have hkeeps := Ledger.run_keeps hr
  refine ⟨hkeeps, ?_, ConnectionPool.nodup_connectedPeers, fun peer => ⟨ConnectionPool.mem_connectedPeers, ?_⟩⟩
  · rw [ConnectionPool.isEmpty_iff]
    refine forall_congr' fun peer => ?_
    rw [Option.eq_none_iff_forall_ne_some]
    exact forall_congr' fun info => not_congr (hkeeps peer info)
  · rw [ConnectionPool.isConnected_iff]
    exact exists_congr fun info => and_congr_left' (hkeeps peer info)

def countedInfo (sent : UInt64) : ConnectionInfo :=
  ⟨samplePeer 5, .v4 (Vector.replicate 4 127) 9000, .connecting, 0, sent, 0⟩

/-- The entry of a peer is replaced by one that passed its check before, and bytes are recorded on both. -/
def countedRun : List PoolAct :=
  [.check 0 (countedInfo 0), .check 1 (countedInfo 7), .insert 0, .recordBytesSent (samplePeer 5) 100, .insert 1,
    .recordBytesSent (samplePeer 5) 20, .updateState (samplePeer 5) .connected, .recordBytesSent (samplePeer 5) 3]

theorem pool_keeps_ledger_counted :
    ∃ s, Lts.run Ledger.step (.init 9) countedRun = some s ∧ s.shared.pool.connectedPeers = [samplePeer 5] ∧
      ∃ info, s.shared.pool.get (samplePeer 5) = some info ∧ info.state = .connected ∧ info.bytesSent = 30 := by
  have hrun : ∃ s, Lts.run Ledger.step (.init 9) countedRun = some s ∧
      s.shared.pool.connectedPeers = [samplePeer 5] ∧
      s.events = [.inserted (countedInfo 0), .sent (samplePeer 5) 100] ++ .inserted (countedInfo 7) ::
        [.sent (samplePeer 5) 20, .updated (samplePeer 5) .connected, .sent (samplePeer 5) 3] := ⟨_, rfl, rfl, rfl⟩
  obtain ⟨s, hr, hpeers, hevents⟩ := hrun
  have hsplit : Since.Split (PoolEvent.resets (samplePeer 5)) s.events (.inserted (countedInfo 7))
      [.sent (samplePeer 5) 20, .updated (samplePeer 5) .connected, .sent (samplePeer 5) 3] :=
    ⟨_, hevents, rfl, by simp [PoolEvent.resets]⟩
  exact ⟨s, hr, hpeers, _, ((pool_keeps_ledger hr).1 (samplePeer 5) _).mpr ⟨_, _, hsplit, rfl⟩, rfl, rfl⟩

end OmniMesh.Transport
