import OmniMesh.Transport.Quic

/-!
# Reading a stream to its end
-/

namespace OmniMesh.Transport
open OmniMesh.Core

theorem recv_pending : QuicConnection.recv.Pending 4 := Nat.zero_lt_succ 3

theorem finishedEarly_of_lt {future : QuicConnection.RecvFuture} (h : (future.consumed 4).length < 4) :
    future.finishedEarly = .ok none := by
  cases future with
  | header got => rfl
  | body len got =>
      simp only [Frame.Reader.consumed, List.length_append, Frame.beBytes_length] at h
      omega

theorem finishedEarly_of_le {future : QuicConnection.RecvFuture} (hp : future.Pending 4)
    (h : 4 ≤ (future.consumed 4).length) : ∃ e, future.finishedEarly = .error e := by
  cases future with
  | header got => exact absurd hp (Nat.not_lt.mpr h)
  | body len got => exact ⟨_, rfl⟩

namespace RecvCalls

variable {s t : RecvCalls} {act : RecvAct} {stream rest : Bytes} {frames : List Bytes}

/-- What a step can do. -/
inductive Moves (s : RecvCalls) : RecvAct → RecvCalls → Prop
  | arrive {n} : 0 < n → s.transit ≠ [] → Moves s (.arrive n)
      { s with arrived := s.arrived ++ s.transit.take n, transit := s.transit.drop n }
  | finish : s.transit = [] → s.finished = false → Moves s .finish { s with finished := true }
  | ended {future} : s.call = some future → s.arrived = [] → s.finished = true → Moves s .poll
      { s with call := none, results := s.results ++ [future.finishedEarly] }
  | pending {future future' arrived} : s.call = some future → s.arrived ≠ [] →
      future.poll s.arrived = (.pending future', arrived) →
      Moves s .poll { s with call := some future', arrived }
  | ready {future frame arrived} : s.call = some future → s.arrived ≠ [] →
      future.poll s.arrived = (.ready frame, arrived) →
      Moves s .poll { s with
        call := some QuicConnection.recv, arrived, results := s.results ++ [.ok (some frame)] }

theorem step_moves (hs : s.step act = some t) : s.Moves act t := by
  cases act with
  | arrive n =>
      simp only [step] at hs
      split at hs
      · rename_i h
        cases hs
        exact .arrive h.1 h.2
      · cases hs
  | finish =>
      simp only [step] at hs
      split at hs
      · rename_i h
        cases hs
        exact .finish h.1 h.2
      · cases hs
  | poll =>
      simp only [step] at hs
      split at hs
      · cases hs
      · rename_i future hcall
        split at hs
        · rename_i harrived
          split at hs
          · rename_i hfin
            cases hs
            exact .ended hcall harrived hfin
          · cases hs
        · rename_i harrived
          split at hs
          · rename_i hpoll
            cases hs
            exact .pending hcall harrived hpoll
          · rename_i hpoll
            cases hs
            exact .ready hcall harrived hpoll

/-- No byte is lost: the frames returned, the bytes taken by the pending call and those still to be
read are the stream. -/
inductive Reads (stream : Bytes) (s : RecvCalls) : Prop
  | reading {future : QuicConnection.RecvFuture} {frames : List Bytes} : s.call = some future → future.Pending 4 →
      s.results = frames.map (fun frame => .ok (some frame)) →
      (∀ frame ∈ frames, frame.length < 256 ^ 4) →
      stream = frames.flatMap (Frame.encode 4) ++ (future.consumed 4 ++ (s.arrived ++ s.transit)) →
      (s.finished = true → s.transit = []) → Reads stream s
  | ended {future : QuicConnection.RecvFuture} {frames : List Bytes} : s.call = none → future.Pending 4 →
      s.results = frames.map (fun frame => .ok (some frame)) ++ [future.finishedEarly] →
      Frame.Splits 4 stream frames (future.consumed 4) →
      s.transit = [] → s.finished = true → Reads stream s

theorem reads_init (stream : Bytes) : Reads stream (init stream) := by
  refine .reading rfl recv_pending List.map_nil.symm (by simp) ?_ (by simp [init])
  rfl

theorem Reads.pending {future} (h : Reads stream s) (hcall : s.call = some future) : future.Pending 4 := by
  cases h with
  | reading hcall' hp =>
      cases hcall.symm.trans hcall'
      exact hp
  | ended hcall' => simp [hcall'] at hcall

theorem Reads.step (h : Reads stream s) (hs : s.step act = some t) : Reads stream t := by
  have hm := step_moves hs
  cases h with
  | @reading future frames hcall hp hres hfits hstream hfin =>
      cases hm with
      | arrive _ htransit =>
          refine .reading hcall hp hres hfits ?_ fun h => absurd (hfin h) htransit
          rw [hstream, List.append_assoc s.arrived, List.take_append_drop]
      | finish htransit _ => exact .reading hcall hp hres hfits hstream fun _ => htransit
      | ended hcall' harrived hfinished =>
          cases hcall.symm.trans hcall'
          refine .ended rfl hp (by rw [hres]) ⟨hfits, ?_, fun _ _ hf => hp.no_frame hf⟩
            (hfin hfinished) hfinished
          rw [hstream, harrived, hfin hfinished, List.append_nil, List.append_nil]
      | pending hcall' _ hpoll =>
          cases hcall.symm.trans hcall'
          obtain ⟨hp', rfl, hc⟩ := hp.poll_pending hpoll
          refine .reading rfl hp' hres hfits ?_ hfin
          rw [hstream, ← hc, List.nil_append, List.append_assoc (future.consumed 4)]
      | @ready _ frame rest hcall' _ hpoll =>
          cases hcall.symm.trans hcall'
          obtain ⟨hf, hc⟩ := hp.poll_ready hpoll
          have hres' : s.results ++ [.ok (some frame)] =
              (frames ++ [frame]).map (fun frame => .ok (some frame)) := by
            rw [hres, List.map_append, List.map_singleton]
          refine .reading rfl recv_pending hres' ?_ ?_ hfin
          · intro f hmem
            rcases List.mem_append.mp hmem with h | h
            · exact hfits f h
            · rw [List.mem_singleton.mp h]
              exact hf
          · rw [hstream, ← List.append_assoc (future.consumed 4), hc]
            simp [QuicConnection.recv, Frame.Reader.consumed]
  | ended hcall hp hres hsplit htransit hfin =>
      cases hm with
      | arrive _ h => exact absurd htransit h
      | finish _ h => simp [hfin] at h
      | ended h _ _ => simp [hcall] at h
      | pending h _ _ => simp [hcall] at h
      | ready h _ _ => simp [hcall] at h

theorem run_reads {acts} (hr : Lts.run RecvCalls.step (init stream) acts = some t) : Reads stream t :=
  Lts.run_invariant (fun _ _ _ h hs => h.step hs) (reads_init stream) hr

/-! ## The end -/

theorem Reads.exists_step (h : Reads stream s) (hcall : s.call ≠ none) : ∃ act u, s.step act = some u := by
  cases h with
  | reading hfuture hp hres hfits hstream hfin =>
      by_cases htransit : s.transit = []
      · cases hfinished : s.finished with
        | false => exact ⟨.finish, _, if_pos ⟨htransit, hfinished⟩⟩
        | true =>
            refine ⟨.poll, ?_⟩
            simp only [RecvCalls.step, hfuture, hfinished, if_true]
            split
            · exact ⟨_, rfl⟩
            · split <;> exact ⟨_, rfl⟩
      · exact ⟨.arrive 1, _, if_pos ⟨Nat.one_pos, htransit⟩⟩
  | ended hnone => exact absurd hnone hcall

/-- What is still to do: each byte arrives and is taken, the end arrives, the last call returns. -/
def remaining (s : RecvCalls) : Nat :=
  2 * s.transit.length + s.arrived.length + (if s.finished then 0 else 1) + if s.call = none then 0 else 1

theorem Reads.remaining_lt (h : Reads stream s) (hs : s.step act = some t) :
    t.remaining < s.remaining := by
  cases step_moves hs with
  | @arrive n hn htransit =>
      have hlen : 0 < s.transit.length := List.length_pos_iff.mpr htransit
      simp only [remaining, List.length_append, List.length_take, List.length_drop]
      omega
  | finish _ hfin => simp [remaining, hfin]
  | ended hcall _ _ => simp [remaining, hcall]
  | pending hcall harrived hpoll =>
      have hlen : 0 < s.arrived.length := List.length_pos_iff.mpr harrived
      obtain ⟨_, rfl, _⟩ := (h.pending hcall).poll_pending hpoll
      simp only [remaining, hcall, reduceCtorEq, if_false, List.length_nil]
      omega
  | ready hcall _ hpoll =>
      obtain ⟨hf, hc⟩ := (h.pending hcall).poll_ready hpoll
      have hlt := (h.pending hcall).rest_lt hf hc
      simp only [remaining, hcall, reduceCtorEq, if_false]
      omega

theorem ends (stream : Bytes) : Lts.Ends RecvCalls.step (init stream) :=
  Lts.ends_of_lt remaining (fun _ _ _ h hs => ⟨h.step hs, h.remaining_lt hs⟩) (reads_init stream)

theorem Reads.results_eq (h : Reads stream s) (hcall : s.call = none)
    (hsplit : Frame.Splits 4 stream frames rest) : ∃ future : QuicConnection.RecvFuture,
      future.Pending 4 ∧ future.consumed 4 = rest ∧
      s.results = frames.map (fun frame => .ok (some frame)) ++ [future.finishedEarly] := by
  cases h with
  | reading hfuture => rw [hcall] at hfuture; cases hfuture
  | ended _ hp hres hsplit' =>
      obtain ⟨rfl, hrest⟩ := hsplit'.unique hsplit
      exact ⟨_, hp, hrest, hres⟩

theorem splits_sent {messages : List Bytes} (h : ∀ message ∈ messages, message.length < 2 ^ 32) :
    Frame.Splits 4 (messages.flatMap QuicConnection.send) messages [] :=
  ⟨h, (List.append_nil _).symm, fun _ _ _ => Frame.ne_encode_of_lt (Nat.zero_lt_succ 3)⟩

theorem tells_append {last} :
    Tells frames rest (frames.map (fun frame => .ok (some frame)) ++ [last]) ↔
      (last = .ok none ↔ rest = []) ∧ (rest ≠ [] → ∃ e, last = .error e) := by
  constructor
  · rintro ⟨last', heq, h⟩
    cases List.append_cancel_left heq
    exact h
  · exact fun h => ⟨last, rfl, h⟩

theorem Reads.tells_iff (h : Reads stream s) (hcall : s.call = none)
    (hsplit : Frame.Splits 4 stream frames rest) : Tells frames rest s.results ↔ WholePrefix rest := by
  obtain ⟨future, hp, rfl, hres⟩ := h.results_eq hcall hsplit
  rw [hres, tells_append, WholePrefix]
  by_cases hlen : (future.consumed 4).length < 4
  · simp [finishedEarly_of_lt hlen, Nat.not_le.mpr hlen]
  · obtain ⟨e, he⟩ := finishedEarly_of_le hp (Nat.not_lt.mp hlen)
    have hne : future.consumed 4 ≠ [] := by
      intro hnil
      simp [hnil] at hlen
    simp [he, hne, Nat.not_lt.mp hlen]

end RecvCalls

end OmniMesh.Transport
