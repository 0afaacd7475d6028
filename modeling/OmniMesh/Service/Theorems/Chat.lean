import OmniMesh.Core.Lemmas.Concrete
import OmniMesh.Service.Lemmas.Chat

/-!
# Chat
-/

namespace OmniMesh.Service
open OmniMesh.Core

/-- What a receiver was told accounts for every well-formed message since its subscription: each one was
returned in its turn, counted as missed, or is unread. Messages are missed only by a receiver that is more
than 128 of them behind, and the next `recv` says so. -/
theorem chat_accounts_for_messages {before after : List ChatAct} {s : Chat}
    (hrun : Lts.run Chat.step .new (before ++ .subscribe :: after) = some s)
    (hdrop : .dropReceiver (before.countP ChatAct.isSubscribe) ∉ after) :
    ∃ results unread, s.results[before.countP ChatAct.isSubscribe]? = some results ∧
      Broadcast.Replays results (after.filterMap ChatAct.message) unread ∧
      (s.recv (before.countP ChatAct.isSubscribe)).map Prod.fst = Broadcast.told 128 unread := by
  obtain ⟨hsound, results, unread, hres, hwaits, hreplays⟩ := Chat.run_subscribe hrun hdrop
  refine ⟨results, unread, hres, hreplays, ?_⟩
  have hcap : s.service.messageTx.capacity = 128 := hsound.capacity
  rw [Chat.recv, Option.map_map]
  exact hcap ▸ hwaits.recv_result

/-- A message that comes before the second subscription. -/
def earlyChat : List ChatAct := [.subscribe, .handleMessage (samplePeer 1) (ChatService.formatMessage "early")]

/-- A message that comes after it, and bytes that are no message. -/
def lateChat : List ChatAct :=
  [.handleMessage (samplePeer 2) (ChatService.formatMessage "hello"), .handleMessage (samplePeer 2) [0xFF]]

theorem chat_accounts_for_messages_hello :
    ∃ s, Lts.run Chat.step .new (earlyChat ++ .subscribe :: lateChat) = some s ∧
      (s.recv 1).map Prod.fst = some (.item (samplePeer 2, "hello")) := by
  have hbad : ChatAct.message (.handleMessage (samplePeer 2) [0xFF]) = none := rfl
  have hello : ChatAct.message (.handleMessage (samplePeer 2) (ChatService.formatMessage "hello")) =
      some (samplePeer 2, "hello") := ChatService.message_formatMessage (by decide)
  have hrun : ∃ s, Lts.run Chat.step .new (earlyChat ++ .subscribe :: lateChat) = some s ∧ s.results[1]? = some [] :=
    ⟨_, rfl, rfl⟩
  obtain ⟨s, hs, hnone⟩ := hrun
  obtain ⟨results, unread, hres, hreplays, hrecv⟩ := chat_accounts_for_messages hs (by simp [lateChat])
  cases hnone.symm.trans hres
  simp only [lateChat, List.filterMap_cons, hello, hbad, List.filterMap_nil] at hreplays
  cases hreplays
  exact ⟨s, hs, hrecv⟩

/-- The printing task of a node prints the messages that come after its start in their order. A poll shows
the next one while at most 128 wait, and otherwise ends the task, which then prints nothing any more. -/
theorem printer_prints_until_lag {before after : List PrinterAct} {s : Printer}
    (hrun : Lts.run Printer.step .new (before ++ .spawn :: after) = some s) :
    ∃ done rest, after.filterMap PrinterAct.message = done ++ rest ∧ s.printed = done.map Printer.line ∧
      ((∃ receiver, s.task = .running receiver) ∧ s.Polls rest ∨
        s.task = .ended ∧ 128 < rest.length ∧
          ∀ more t, Lts.run Printer.step s more = some t → t.task = .ended ∧ t.printed = s.printed) := by
  obtain ⟨hsound, hprints⟩ := Printer.run_spawn hrun
  cases hprints with
  | running hrun hwaits hvalues hprinted =>
      exact ⟨_, _, hvalues, hprinted, .inl ⟨⟨_, hrun⟩, hsound.polls hrun hwaits⟩⟩
  | ended hend hvalues hprinted hlen =>
      refine ⟨_, _, hvalues, hprinted, .inr ⟨hend, hlen, fun more t hmore => ?_⟩⟩
      exact Printer.run_ended hend hmore

def heardBy (text : String) : PrinterAct := .handleMessage (samplePeer 2) (ChatService.formatMessage text)

theorem message_heardBy {text : String} (htext : text.utf8ByteSize < 256 ^ 8) :
    (heardBy text).message = some (samplePeer 2, text) := by
  rw [heardBy, PrinterAct.message, ChatService.message_formatMessage htext]

/-- One message before the task starts; two after it, and a poll between them. -/
theorem printer_prints_until_lag_hello :
    ∃ s t, Lts.run Printer.step .new ([heardBy "early"] ++ .spawn :: [heardBy "hello", .poll, heardBy "again"]) =
        some s ∧
      s.printed = [Printer.line (samplePeer 2, "hello")] ∧ s.step .poll = some t ∧
      t.printed = [Printer.line (samplePeer 2, "hello"), Printer.line (samplePeer 2, "again")] := by
  have hrun : ∃ s receiver, Lts.run Printer.step .new
      ([heardBy "early"] ++ .spawn :: [heardBy "hello", .poll, heardBy "again"]) = some s ∧
      s.task = .running receiver ∧ s.printed.length = 1 := ⟨_, _, rfl, rfl, rfl⟩
  obtain ⟨s, receiver, hs, htask, hlength⟩ := hrun
  obtain ⟨done, rest, hvalues, hprinted, ⟨-, hpolls⟩ | ⟨hend, -⟩⟩ := printer_prints_until_lag hs
  · rw [List.filterMap_cons_some (message_heardBy (by decide)), List.filterMap_cons_none rfl,
      List.filterMap_cons_some (message_heardBy (by decide)), List.filterMap_nil] at hvalues
    rw [hprinted, List.length_map] at hlength
    obtain ⟨first, rfl⟩ := List.length_eq_one_iff.mp hlength
    cases hvalues
    obtain ⟨t, ht, -, hshown⟩ := hpolls
    rw [hprinted] at hshown
    exact ⟨s, t, hs, hprinted, ht, hshown⟩
  · cases htask.symm.trans hend

end OmniMesh.Service
