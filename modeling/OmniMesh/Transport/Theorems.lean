import OmniMesh.Core.Lemmas.Concrete
import OmniMesh.Transport.Lemmas.Pool
import OmniMesh.Transport.Lemmas.Quic
import OmniMesh.Transport.Lemmas.Streams

/-!
# Transports
-/

namespace OmniMesh.Transport
open OmniMesh.Core

/-! ## The connection pool -/

/-- The pool keeps its limit when every `insert` that finds room also finds room beside those about to
insert; after one that does not, the inserts under way may fill the pool beyond the limit. -/
theorem pool_keeps_limit (s : SharedPool) :
    (∀ maxConnections acts, Lts.Meets SharedPool.step SharedPool.Roomy (.init maxConnections) acts →
      Lts.run SharedPool.step (.init maxConnections) acts = some s →
      s.pool.maxConnections = maxConnections ∧ s.pool.len ≤ maxConnections) ∧
    ∀ act t, s.step act = some t → ¬ s.Roomy act →
      ∃ more u, Lts.Meets SharedPool.step SharedPool.Roomy t more ∧
        Lts.run SharedPool.step t more = some u ∧ u.pool.maxConnections < u.pool.len := by
  constructor
  · intro maxConnections acts hm hr
    have hmax : s.pool.maxConnections = maxConnections :=
      Lts.run_invariant (I := fun s => s.pool.maxConnections = maxConnections)
        (fun _ _ _ h hs => (SharedPool.step_maxConnections hs).trans h) rfl hr
    exact ⟨hmax, hmax ▸ SharedPool.run_len_le hm hr⟩
  · intro act t hs hroomy
    exact SharedPool.exists_overfull (SharedPool.claimed_of_not_roomy hroomy hs)

def infoOf (b : UInt8) : ConnectionInfo :=
  ⟨samplePeer b, .v4 (Vector.replicate 4 b) 1000, .connected, 0, 0, 0⟩

/-- One insert after the other into a pool for two, where the third is refused. -/
def queuedInserts : List PoolAct :=
  [.check 0 (infoOf 1), .insert 0, .check 1 (infoOf 2), .insert 1, .check 2 (infoOf 3), .refuse 2]

theorem pool_keeps_limit_queued :
    ∃ s, Lts.run SharedPool.step (.init 2) queuedInserts = some s ∧
      s.inserts.lookup 2 = some (.returned (.error (.connection "connection pool full (2/2)"))) ∧
      s.pool.len ≤ 2 := by
  have hm : Lts.Meets SharedPool.step SharedPool.Roomy (.init 2) queuedInserts := by
    refine .cons (fun _ _ => ?_) rfl <| .cons trivial rfl <| .cons (fun _ _ => ?_) rfl <|
      .cons trivial rfl <| .cons (fun _ hroom => ?_) rfl <| .cons trivial rfl trivial
    · decide
    · decide
    · exact absurd hroom (by decide)
  exact ⟨_, rfl, rfl, ((pool_keeps_limit _).1 2 _ hm rfl).2⟩

/-- Both inserts read the size before either of them inserts. -/
def racingInserts : List PoolAct :=
  [.check 0 (infoOf 1), .check 1 (infoOf 2), .insert 0, .insert 1]

theorem pool_exceeds_limit :
    ∃ s, Lts.run SharedPool.step (.init 1) racingInserts = some s ∧ s.pool.maxConnections = 1 ∧
      s.pool.len = 2 :=
  ⟨_, rfl, rfl, rfl⟩

/-! ## Frames on a stream -/

/-- However the bytes of the messages are cut on the way, the calls of `recv` return the messages and
then `Ok(None)`. -/
theorem recv_returns_sent (messages : List Bytes) (h : ∀ message ∈ messages, message.length < 2 ^ 32) :
    Lts.Ends RecvCalls.step (.init (messages.flatMap QuicConnection.send)) ∧
    ∀ acts s, Lts.run RecvCalls.step (.init (messages.flatMap QuicConnection.send)) acts = some s →
      (s.call ≠ none → ∃ act t, s.step act = some t) ∧
      (s.call = none →
        s.results = messages.map (fun message => .ok (some message)) ++ [.ok none]) := by
  refine ⟨RecvCalls.ends _, fun acts s hr => ?_⟩
  have hreads := RecvCalls.run_reads hr
  refine ⟨hreads.exists_step, fun hcall => ?_⟩
  obtain ⟨future, _, hrest, hres⟩ := hreads.results_eq hcall (RecvCalls.splits_sent h)
  have hlen : (future.consumed 4).length < 4 := by simp [hrest]
  rw [hres, finishedEarly_of_lt hlen]

/-- An empty message and one whose data reads as a length. -/
def sampleMessages : List Bytes := [[], [0, 0, 0, 9]]

theorem recv_returns_sent_sample :
    ∃ acts s,
      Lts.run RecvCalls.step (.init (sampleMessages.flatMap QuicConnection.send)) acts = some s ∧
      s.results = [.ok (some []), .ok (some [0, 0, 0, 9]), .ok none] := by
  have h := recv_returns_sent sampleMessages (by decide)
  have hr : ∃ s, Lts.run RecvCalls.step (.init (sampleMessages.flatMap QuicConnection.send))
      [.arrive 3, .poll, .arrive 9, .poll, .poll, .finish, .poll] = some s ∧ s.call = none :=
    ⟨_, rfl, rfl⟩
  obtain ⟨s, hs, hcall⟩ := hr
  exact ⟨_, s, hs, (h.2 _ s hs).2 hcall⟩

/-- Every stream starts with its complete frames; the calls return them and tell a clean end from a
truncated frame exactly when the stream does not end inside a length prefix. -/
theorem recv_tells_truncation_iff (stream : Bytes) :
    (∃ frames rest, Frame.Splits 4 stream frames rest) ∧
    Lts.Ends RecvCalls.step (.init stream) ∧
    ∀ acts s, Lts.run RecvCalls.step (.init stream) acts = some s →
      (s.call ≠ none → ∃ act t, s.step act = some t) ∧
      ∀ frames rest, Frame.Splits 4 stream frames rest → s.call = none →
        (RecvCalls.Tells frames rest s.results ↔ RecvCalls.WholePrefix rest) := by
  refine ⟨Frame.exists_splits (Nat.zero_lt_succ 3) stream, RecvCalls.ends stream, fun acts s hr => ?_⟩
  have hreads := RecvCalls.run_reads hr
  exact ⟨hreads.exists_step, fun frames rest hsplit hcall => hreads.tells_iff hcall hsplit⟩

/-- One frame and the first byte of another. -/
def cutStream : Bytes := [0, 0, 0, 1, 7, 0]

theorem splits_cutStream : Frame.Splits 4 cutStream [[7]] [0] :=
  ⟨by decide, rfl, fun _ _ _ => Frame.ne_encode_of_lt (by decide)⟩

/-- The end of the stream inside the second frame is returned as a graceful close. -/
theorem recv_hides_truncation :
    Frame.Splits 4 cutStream [[7]] [0] ∧
    ∃ s, Lts.run RecvCalls.step (.init cutStream) [.arrive 6, .poll, .poll, .finish, .poll] = some s ∧
      s.results = [.ok (some [7]), .ok none] ∧ ¬ RecvCalls.Tells [[7]] [0] s.results := by
  have hr : ∃ s, Lts.run RecvCalls.step (.init cutStream) [.arrive 6, .poll, .poll, .finish, .poll] = some s ∧
      s.results = [.ok (some [7]), .ok none] := ⟨_, rfl, rfl⟩
  obtain ⟨s, hs, hres⟩ := hr
  refine ⟨splits_cutStream, s, hs, hres, fun h => ?_⟩
  rw [hres] at h
  simpa using RecvCalls.tells_append.mp h

/-! ## The streams of a connection -/

/-- No message is reordered or left behind when an end whose first call is a `send` makes it before the
other end has opened a stream; after one that comes later, its message is never read. -/
theorem streams_lose_nothing_iff_alone (s : StreamPair) :
    (∀ acts, Lts.Meets StreamPair.step StreamPair.Alone .init acts →
      Lts.run StreamPair.step .init acts = some s →
      ∀ e, (s.ends e.other).received <+: (s.ends e).sent ∧ ∀ i, ¬ s.Lost e i) ∧
    ∀ acts act t, Lts.run StreamPair.step .init acts = some s → s.step act = some t →
      ¬ s.Alone act → ∃ more u e i, Lts.run StreamPair.step t more = some u ∧ u.Lost e i := by
  constructor
  · intro acts hm hr e
    have hp : s.Paired := hm.invariant (fun _ _ _ h halone hs => h.step halone hs)
      StreamPair.paired_init hr
    exact ⟨hp.wired.received_prefix e, hp.not_lost e⟩
  · intro acts act t hr hs halone
    exact StreamPair.exists_lost (StreamPair.run_wired hr) hs halone

/-- Both ends send before either receives. -/
def crossedSends : List StreamAct := [.send .client [1], .write .client, .send .server [2], .write .server]

theorem streams_lose_crossed_sends :
    ∃ s, Lts.run StreamPair.step .init crossedSends = some s ∧ s.Lost .client 0 ∧ s.Lost .server 0 := by
  have hr : ∃ s, Lts.run StreamPair.step .init crossedSends = some s ∧
      (∀ e, (s.ends e).opened = 1 ∧ (s.ends e).sent.length = 1 ∧ (s.ends e).received = []) :=
    ⟨_, rfl, fun e => by cases e <;> exact ⟨rfl, rfl, rfl⟩⟩
  obtain ⟨s, hs, hends⟩ := hr
  have hlost (e : Endpoint) : s.Lost e 0 := by
    obtain ⟨_, hsent, _⟩ := hends e
    have hapart : StreamPair.Apart e 0 s :=
      ⟨StreamPair.run_wired hs, fun x => by simp [hends x], by simp [hends e.other]⟩
    exact hapart.lost (by omega)
  exact ⟨s, hs, hlost .client, hlost .server⟩

end OmniMesh.Transport
