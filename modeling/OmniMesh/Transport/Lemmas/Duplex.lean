import OmniMesh.Lib.Simulation
import OmniMesh.Transport.Connection
import OmniMesh.Transport.Lemmas.Streams

/-!
# Connections over QUIC as what a connection is for
-/

namespace OmniMesh.Transport
open OmniMesh.Core

/-! ## The histories of a duplex -/

namespace Duplex

variable {d : Duplex} {sent got sent' got' : Endpoint → List Bytes} {e : Endpoint} {data : Bytes}

/-- What was sent from each end, and what of it the other end has got. -/
def Shows (d : Duplex) (sent got : Endpoint → List Bytes) : Prop := ∀ e, (d e).sent = sent e ∧ (d e).got = got e

theorem Shows.send (h : d.Shows sent got) (hsent : sent' e = sent e ++ [data])
    (hother : sent' e.other = sent e.other) (hgot : ∀ x, got' x = got x) :
    ∃ d', d.step (.send e data) = some d' ∧ d'.Shows sent' got' := by
  refine ⟨_, rfl, Endpoint.both e ?_ ?_⟩
  · simp [Fifo.send, hsent, hgot, h e]
  · simpa [hother, hgot] using h e.other

theorem Shows.recv {rest : List Bytes} (h : d.Shows sent got)
    (hnext : sent e.other = got e.other ++ data :: rest) (hsent : ∀ x, sent' x = sent x)
    (hgot : got' e.other = got e.other ++ [data]) (hsame : got' e = got e) :
    ∃ d', d.step (.recv e data) = some d' ∧ d'.Shows sent' got' := by
  have hdata : (d e.other).next = some data := by
    rw [Fifo.next, (h e.other).1, (h e.other).2, hnext]
    simp
  refine ⟨_, dif_pos hdata, Endpoint.both e ?_ ?_⟩
  · simpa [hsent, hsame] using h e
  · simp [Fifo.deliver, hsent, hgot, h e.other]

end Duplex

/-! ## Streams -/

namespace StreamPair

variable {s t : StreamPair} {act : StreamAct} {d : Duplex}

/-- What an end can read next is the first message of the other one that it has not got. -/
theorem Wired.sent_of_unread {e : Endpoint} {stream : StreamId} {message : Bytes} {rest : List Bytes}
    (h : s.Wired) (hunread : s.unread stream e = message :: rest) :
    (s.ends e.other).sent = (s.ends e).received ++ message :: rest := by
  have hother : (s.ends e.other).sendStream = some stream := by
    by_contra hne
    have hempty := h.only e.other stream hne
    simp [hunread] at hempty
  have hflow := h.flow e.other
  rw [carried_some hother, Endpoint.other_other, hunread] at hflow
  exact hflow.symm

/-- A state and the duplex that the connection has been so far. -/
structure Refines (s : StreamPair) (d : Duplex) : Prop where
  wired : s.Wired
  histories : d.Shows (fun e => (s.ends e).sent) fun e => (s.ends e.other).received

theorem Refines.silent {conn : QuicEnd} {e : Endpoint} (h : s.Refines d) (hwired : (s.set e conn).Wired)
    (hsent : conn.sent = (s.ends e).sent) (hreceived : conn.received = (s.ends e).received) :
    (s.set e conn).Refines d := by
  refine ⟨hwired, Endpoint.both e ?_ ?_⟩
  · simpa [hsent] using h.histories e
  · simpa [hreceived] using h.histories e.other

theorem simulates : Lts.Simulates step Duplex.step label Refines where
  silent s act t d hR hs hl := by
    have hwired := hR.wired.step hs
    cases step_moves hs with
    | opens => exact hR.silent hwired rfl rfl
    | again => exact hR.silent hwired rfl rfl
    | accepts => exact hR.silent hwired rfl rfl
    | writes hw => simp [label, hw] at hl
    | reads hstream hunread => simp [label, hstream, hunread] at hl
  visible s act t d seen hR hs hl := by
    have hwired := hR.wired.step hs
    cases step_moves hs with
    | opens => cases hl
    | again => cases hl
    | accepts => cases hl
    | @writes e data stream hw =>
        simp only [label, hw, Option.map_some, Option.some.injEq] at hl
        subst hl
        refine (hR.histories.send ?_ ?_ (Endpoint.both e ?_ ?_)).imp fun d' h => ⟨h.1, hwired, h.2⟩
        all_goals simp
    | @reads e stream message rest hstream hunread =>
        simp only [label, hstream, hunread, Option.bind_some, List.head?_cons, Option.map_some,
          Option.some.injEq] at hl
        subst hl
        have hsent := hR.wired.sent_of_unread hunread
        have hnext : (s.ends e.other).sent = (s.ends e.other.other).received ++ message :: rest := by
          rw [Endpoint.other_other, hsent]
        refine (hR.histories.recv hnext (Endpoint.both e ?_ ?_) ?_ ?_).imp fun d' h => ⟨h.1, hwired, h.2⟩
        all_goals simp

theorem refines_init : init.Refines .init := ⟨wired_init, fun _ => ⟨rfl, rfl⟩⟩

end StreamPair

end OmniMesh.Transport
