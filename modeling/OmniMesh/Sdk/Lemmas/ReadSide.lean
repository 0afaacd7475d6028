import OmniMesh.Sdk.ReadSide
import OmniMesh.Transport.Lemmas.Quic

/-!
# Framing along a run of the session loop
-/

namespace OmniMesh.Sdk
open OmniMesh.Core OmniMesh.Transport

def streamOf (frames : List Bytes) : Bytes := (frames.map QuicConnection.send).flatten

theorem streamOf_append (fs gs : List Bytes) : streamOf (fs ++ gs) = streamOf fs ++ streamOf gs := by
  rw [streamOf, List.map_append, List.flatten_append]
  rfl

theorem streamOf_cons (f : Bytes) (fs : List Bytes) :
    streamOf (f :: fs) = QuicConnection.send f ++ streamOf fs := rfl

namespace ReadSide

/-- The bytes taken, arrived and on the way are those of the frames that are still to be handled. -/
structure InStep (s : ReadSide) (rest : List Bytes) : Prop where
  sent : s.sent = s.handled ++ rest
  sized : ∀ f ∈ rest, f.length < 256 ^ 4
  pending : s.future.Pending 4
  stream : s.future.consumed 4 ++ s.arrived ++ s.transit = streamOf rest

variable {s t : ReadSide} {rest : List Bytes}

theorem init_inStep : InStep init [] :=
  ⟨rfl, nofun, recv_pending, rfl⟩

theorem InStep.send {data} (h : InStep s rest) (hlen : data.length < 256 ^ 4) :
    InStep { s with sent := s.sent ++ [data], transit := s.transit ++ QuicConnection.send data }
      (rest ++ [data]) where
  sent := by rw [h.sent, List.append_assoc]
  sized := by
    intro f hf
    rcases List.mem_append.mp hf with hf | hf
    · exact h.sized f hf
    · rw [List.mem_singleton.mp hf]
      exact hlen
  pending := h.pending
  stream := by
    rw [← List.append_assoc, h.stream, streamOf_append, streamOf_cons]
    simp [streamOf]

theorem InStep.poll (h : InStep s rest) (hs : s.step .poll = some t) : ∃ rest', InStep t rest' := by
  simp only [ReadSide.step] at hs
  split at hs
  · split at hs
    · rename_i hpoll
      cases hs
      obtain ⟨hpend, rfl, he⟩ := h.pending.poll_pending hpoll
      refine ⟨rest, h.sent, h.sized, hpend, ?_⟩
      rw [List.append_nil, ← he]
      exact h.stream
    · rename_i hpoll
      cases hs
      obtain ⟨hl, he⟩ := h.pending.poll_ready hpoll
      have hst := h.stream
      rw [he, List.append_assoc] at hst
      cases rest with
      | nil => exact absurd hst.symm (Frame.ne_encode_of_lt (Nat.zero_lt_succ 3))
      | cons f rest =>
          rw [streamOf_cons] at hst
          obtain ⟨rfl, hrest⟩ := Frame.encode_inj hl (h.sized f List.mem_cons_self) hst
          refine ⟨rest, ?_, fun g hg => h.sized g (.tail _ hg), recv_pending, hrest⟩
          rw [h.sent, List.append_assoc]
          rfl
  · cases hs

theorem InStep.step {act} (h : InStep s rest) (hu : s.Undisturbed act) (hs : s.step act = some t) :
    ∃ rest', InStep t rest' := by
  cases act with
  | send data =>
      cases hs
      exact ⟨_, h.send (lt_of_lt_of_eq hu (by norm_num))⟩
  | arrive n =>
      cases hs
      refine ⟨rest, h.sent, h.sized, h.pending, ?_⟩
      rw [← h.stream]
      simp only [List.append_assoc, List.take_append_drop]
  | poll => exact h.poll hs
  | outgoing =>
      simp only [ReadSide.step] at hs
      split at hs <;> cases hs
      refine ⟨rest, h.sent, h.sized, recv_pending, ?_⟩
      have hst := h.stream
      rw [show s.future = QuicConnection.recv from hu] at hst
      exact hst
  | stop =>
      simp only [ReadSide.step] at hs
      split at hs <;> cases hs
      exact ⟨rest, h.sent, h.sized, h.pending, h.stream⟩

theorem InStep.framed (h : InStep s rest) : s.Framed where
  prefix_sent := ⟨rest, h.sent.symm⟩
  complete ht ha := by
    have hst := h.stream
    rw [ht, ha, List.append_nil, List.append_nil] at hst
    cases rest with
    | nil => rw [h.sent, List.append_nil]
    | cons f rest => exact absurd hst (h.pending.no_frame (h.sized f List.mem_cons_self))

end ReadSide

end OmniMesh.Sdk
