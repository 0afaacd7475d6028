import OmniMesh.Service.Chat

/-!
# What the subscribers of a chat are told
-/

namespace OmniMesh.Service
open OmniMesh.Core

/-! ## The service -/

namespace ChatService

variable {s : ChatService} {sender : PeerId} {payload : Bytes} {r : ℕ} {unread : List (PeerId × String)}

theorem handleMessage_capacity :
    (s.handleMessage sender payload).2.messageTx.capacity = s.messageTx.capacity := by
  unfold handleMessage
  split
  · rfl
  · exact Broadcast.send_capacity _

theorem handleMessage_receivers :
    (s.handleMessage sender payload).2.messageTx.receivers = s.messageTx.receivers := by
  unfold handleMessage
  split
  · rfl
  · exact Broadcast.send_receivers _

theorem handleMessage_logs (h : ∃ sent, s.messageTx.Logs sent) :
    ∃ sent, (s.handleMessage sender payload).2.messageTx.Logs sent := by
  obtain ⟨sent, hlog⟩ := h
  unfold handleMessage
  split
  · exact ⟨sent, hlog⟩
  · exact hlog.send _

theorem handleMessage_waits (h : s.messageTx.Waits r unread) :
    (s.handleMessage sender payload).2.messageTx.Waits r
      (unread ++ (ChatAct.handleMessage sender payload).message.toList) := by
  cases hd : ChatMessage.codec.deserialize payload with
  | error e => simpa [handleMessage, ChatAct.message, hd] using h
  | ok msg => simpa [handleMessage, ChatAct.message, hd] using h.send (sender, msg.text)

theorem message_formatMessage {text : String} (htext : text.utf8ByteSize < 256 ^ 8) :
    (ChatAct.handleMessage sender (formatMessage text)).message = some (sender, text) := by
  have hfits : ChatMessage.codec.Fits ⟨text⟩ := htext
  simp only [ChatAct.message, formatMessage, Codec.deserialize_serialize hfits]

end ChatService

/-! ## Subscribers -/

namespace Chat

variable {s t : Chat} {act : ChatAct} {r : ℕ} {values : List (PeerId × String)}

/-- One list of results for each receiver, and a channel of the size that the service has asked for. -/
structure Sound (s : Chat) : Prop where
  logs : ∃ sent, s.service.messageTx.Logs sent
  capacity : s.service.messageTx.capacity = Broadcast.slots 100
  results : s.results.length = s.service.messageTx.receivers.length

theorem new_sound : new.Sound := ⟨⟨[], Broadcast.new_logs _⟩, rfl, rfl⟩

theorem Sound.step (h : s.Sound) (hs : s.step act = some t) :
    t.Sound ∧ t.results.length = s.results.length + if act.isSubscribe then 1 else 0 := by
  cases act with
  | subscribe =>
      cases hs
      obtain ⟨sent, hlog⟩ := h.logs
      exact ⟨⟨⟨sent, hlog.tail, hlog.window⟩, h.capacity,
          by simp [h.results, ChatService.subscribe, Broadcast.subscribe]⟩,
        by simp [ChatAct.isSubscribe]⟩
  | handleMessage sender payload =>
      cases hs
      exact ⟨⟨ChatService.handleMessage_logs h.logs, ChatService.handleMessage_capacity.trans h.capacity,
        by rw [ChatService.handleMessage_receivers]; exact h.results⟩, rfl⟩
  | recv receiver =>
      obtain ⟨q, hq, rfl⟩ := Option.map_eq_some_iff.mp hs
      obtain ⟨x, hx, rfl⟩ := Option.map_eq_some_iff.mp hq
      obtain ⟨hcap, hlogs, next, hset⟩ := Broadcast.recv_keeps hx
      obtain ⟨sent, hlog⟩ := h.logs
      exact ⟨⟨⟨sent, hlogs sent hlog⟩, hcap.trans h.capacity, by simp [hset, h.results]⟩,
        by simp [ChatAct.isSubscribe]⟩
  | dropReceiver receiver =>
      simp only [Chat.step] at hs
      split at hs
      · cases hs
        obtain ⟨sent, hlog⟩ := h.logs
        exact ⟨⟨⟨sent, hlog.tail, hlog.window⟩, h.capacity, by simp [Broadcast.drop, h.results]⟩, rfl⟩
      · cases hs

theorem run_sound {acts : List ChatAct} (hr : Lts.run step new acts = some s) : s.Sound :=
  Lts.run_invariant (fun _ _ _ h hs => (h.step hs).1) new_sound hr

theorem results_length {acts : List ChatAct} (h : s.Sound) (hr : Lts.run step s acts = some t) :
    t.results.length = s.results.length + acts.countP ChatAct.isSubscribe := by
  induction acts generalizing s with
  | nil =>
      cases hr
      rfl
  | cons act acts ih =>
      obtain ⟨u, hu, hr⟩ := Lts.run_cons hr
      obtain ⟨hsound, hlen⟩ := h.step hu
      rw [ih hsound hr, hlen, List.countP_cons]
      omega

/-- What the receiver was told so far, of the messages since its subscription. -/
def Follows (s : Chat) (r : ℕ) (values : List (PeerId × String)) : Prop :=
  ∃ results unread, s.results[r]? = some results ∧ s.service.messageTx.Waits r unread ∧
    Broadcast.Replays results values unread

theorem Follows.subscribe_self (h : s.Sound) :
    Follows ⟨s.service.subscribe, s.results ++ [[]]⟩ s.results.length [] := by
  obtain ⟨sent, hlog⟩ := h.logs
  refine ⟨[], [], by simp, ?_, rfl⟩
  rw [h.results]
  exact hlog.waits_subscribe

theorem Follows.recv (hf : s.Follows r values) {x : Broadcast.Received (PeerId × String)}
    {ch : Broadcast (PeerId × String)} (hx : s.service.messageTx.recv r = some (x, ch)) :
    Follows ⟨⟨ch⟩, s.results.modify r (· ++ [x])⟩ r values := by
  obtain ⟨results, unread, hres, hwaits, hreplays⟩ := hf
  have hmod : (s.results.modify r (· ++ [x]))[r]? = some (results ++ [x]) := by simp [hres]
  cases unread with
  | nil =>
      rw [hwaits.recv_nil] at hx
      cases hx
  | cons a rest =>
      by_cases hlen : rest.length < s.service.messageTx.capacity
      · obtain ⟨ch', hr, hwaits'⟩ := hwaits.recv_item hlen
        cases hx.symm.trans hr
        exact ⟨_, rest, hmod, hwaits', hreplays.item⟩
      · obtain ⟨ch', hr, hwaits'⟩ := hwaits.recv_lagged (by rw [List.length_cons]; omega)
        cases hx.symm.trans hr
        exact ⟨_, _, hmod, hwaits', hreplays.lagged (by omega)⟩

theorem Follows.step (hf : s.Follows r values) (hs : s.step act = some t)
    (hdrop : act ≠ .dropReceiver r) : t.Follows r (values ++ act.message.toList) := by
  cases act with
  | subscribe =>
      cases hs
      obtain ⟨results, unread, hres, hwaits, hreplays⟩ := hf
      refine ⟨results, unread, ?_, hwaits.subscribe, by simpa [ChatAct.message] using hreplays⟩
      rw [List.getElem?_append_left (List.getElem?_eq_some_iff.mp hres).1]
      exact hres
  | handleMessage sender payload =>
      cases hs
      obtain ⟨results, unread, hres, hwaits, hreplays⟩ := hf
      refine ⟨results, _, hres, ChatService.handleMessage_waits hwaits, ?_⟩
      cases (ChatAct.handleMessage sender payload).message with
      | none => simpa using hreplays
      | some msg => exact hreplays.send
  | recv receiver =>
      obtain ⟨q, hq, rfl⟩ := Option.map_eq_some_iff.mp hs
      obtain ⟨⟨x, ch⟩, hx, rfl⟩ := Option.map_eq_some_iff.mp hq
      simp only [ChatAct.message, Option.toList_none, List.append_nil]
      by_cases hr : receiver = r
      · subst hr
        exact hf.recv hx
      · obtain ⟨results, unread, hres, hwaits, hreplays⟩ := hf
        exact ⟨results, unread, by simp [hr, hres], hwaits.recv_other hr hx, hreplays⟩
  | dropReceiver receiver =>
      have hne : receiver ≠ r := fun he => hdrop (congrArg _ he)
      simp only [Chat.step] at hs
      split at hs
      · cases hs
        obtain ⟨results, unread, hres, hwaits, hreplays⟩ := hf
        exact ⟨results, unread, hres, hwaits.drop hne, by simpa [ChatAct.message] using hreplays⟩
      · cases hs

/-- The receiver of a `subscribe` in the middle of a run. -/
theorem run_subscribe {before after : List ChatAct}
    (hr : Lts.run step new (before ++ .subscribe :: after) = some t)
    (hdrop : .dropReceiver (before.countP ChatAct.isSubscribe) ∉ after) :
    t.Sound ∧ t.Follows (before.countP ChatAct.isSubscribe) (after.filterMap ChatAct.message) := by
  rw [Lts.run_append] at hr
  obtain ⟨s, hbefore, hr⟩ := Option.bind_eq_some_iff.mp hr
  obtain ⟨u, hu, hafter⟩ := Lts.run_cons hr
  have hsound := run_sound hbefore
  have hlen : s.results.length = before.countP ChatAct.isSubscribe := by
    rw [results_length new_sound hbefore]
    exact Nat.zero_add _
  have hstart : u.Sound ∧ u.Follows s.results.length [] := by
    refine ⟨(hsound.step hu).1, ?_⟩
    cases hu
    exact Follows.subscribe_self hsound
  rw [hlen] at hstart
  refine Lts.run_filterMap (I := fun s values => s.Sound ∧ s.Follows (before.countP ChatAct.isSubscribe) values) ?_
    hstart hafter
  rintro s act t values hact ⟨hsound, hf⟩ hs
  refine ⟨(hsound.step hs).1, hf.step hs ?_⟩
  rintro rfl
  exact hdrop hact

end Chat

/-! ## The task that prints -/

namespace Printer

variable {s t : Printer} {act : PrinterAct} {values : List (PeerId × String)}

/-- The lines of the messages are printed in their order; a task that has ended was too far behind. -/
inductive Prints (s : Printer) (values : List (PeerId × String)) : Prop
  | running {r : ℕ} {done unread : List (PeerId × String)} : s.task = .running r →
      s.service.messageTx.Waits r unread → values = done ++ unread → s.printed = done.map line → Prints s values
  | ended {done rest : List (PeerId × String)} : s.task = .ended → values = done ++ rest →
      s.printed = done.map line → Broadcast.slots 100 < rest.length → Prints s values

/-- The channel has the size that the service has asked for, and nothing is printed before the task. -/
structure Sound (s : Printer) : Prop where
  logs : ∃ sent, s.service.messageTx.Logs sent
  capacity : s.service.messageTx.capacity = Broadcast.slots 100
  silent : s.task = .unborn → s.printed = []

theorem new_sound : new.Sound := ⟨⟨[], Broadcast.new_logs _⟩, rfl, fun _ => rfl⟩

theorem Sound.step (h : s.Sound) (hs : s.step act = some t) : t.Sound := by
  obtain ⟨⟨sent, hlog⟩, hcap, hsilent⟩ := h
  cases act with
  | spawn =>
      simp only [Printer.step] at hs
      split at hs
      · cases hs
        exact ⟨⟨sent, hlog.tail, hlog.window⟩, hcap, fun hunborn => by cases hunborn⟩
      · cases hs
  | handleMessage sender payload =>
      cases hs
      exact ⟨ChatService.handleMessage_logs ⟨sent, hlog⟩, ChatService.handleMessage_capacity.trans hcap, hsilent⟩
  | poll =>
      simp only [Printer.step] at hs
      split at hs
      · rename_i hrun
        split at hs
        · cases hs
        · rename_i hr
          cases hs
          obtain ⟨hcap', hlogs, -⟩ := Broadcast.recv_keeps hr
          exact ⟨⟨sent, hlogs sent hlog⟩, hcap'.trans hcap, fun hunborn => by cases hrun.symm.trans hunborn⟩
        · rename_i hr
          cases hs
          obtain ⟨hcap', hlogs, -⟩ := Broadcast.recv_keeps hr
          have hlog' := hlogs sent hlog
          exact ⟨⟨sent, hlog'.tail, hlog'.window⟩, hcap'.trans hcap, fun hunborn => by cases hunborn⟩
      · cases hs

theorem Prints.step (h : s.Prints values) (hsound : s.Sound) (hs : s.step act = some t) :
    t.Prints (values ++ act.message.toList) := by
  cases act with
  | spawn =>
      simp only [Printer.step] at hs
      split at hs
      · rename_i hunborn
        cases h with
        | running hrun => simp [hunborn] at hrun
        | ended hend => simp [hunborn] at hend
      · cases hs
  | handleMessage sender payload =>
      cases hs
      cases h with
      | running hrun hwaits hvalues hprinted =>
          exact .running hrun (ChatService.handleMessage_waits hwaits)
            (by rw [hvalues, List.append_assoc]; rfl) hprinted
      | ended hend hvalues hprinted hlen =>
          refine .ended hend (by rw [hvalues, List.append_assoc]) hprinted ?_
          rw [List.length_append]
          omega
  | poll =>
      simp only [PrinterAct.message, Option.toList_none, List.append_nil]
      cases h with
      | @running r done unread hrun hwaits hvalues hprinted =>
          simp only [Printer.step, hrun] at hs
          cases unread with
          | nil =>
              rw [hwaits.recv_nil] at hs
              cases hs
          | cons msg rest =>
              by_cases hlen : rest.length < s.service.messageTx.capacity
              · obtain ⟨ch, hr, hwaits'⟩ := hwaits.recv_item hlen
                rw [hr] at hs
                cases hs
                exact .running rfl hwaits' (by rw [hvalues, List.append_cons]) (by simp [hprinted])
              · obtain ⟨ch, hr, -⟩ := hwaits.recv_lagged (by rw [List.length_cons]; omega)
                rw [hr] at hs
                cases hs
                refine .ended rfl hvalues hprinted ?_
                rw [← hsound.capacity, List.length_cons]
                omega
      | ended hend => simp [Printer.step, hend] at hs

theorem run_spawn {before after : List PrinterAct}
    (hr : Lts.run step new (before ++ .spawn :: after) = some t) :
    t.Sound ∧ t.Prints (after.filterMap PrinterAct.message) := by
  rw [Lts.run_append] at hr
  obtain ⟨s, hbefore, hr⟩ := Option.bind_eq_some_iff.mp hr
  obtain ⟨u, hu, hafter⟩ := Lts.run_cons hr
  have hsound : s.Sound := Lts.run_invariant (fun _ _ _ h hs => h.step hs) new_sound hbefore
  have hstart : u.Sound ∧ u.Prints [] := by
    refine ⟨hsound.step hu, ?_⟩
    simp only [Printer.step] at hu
    split at hu
    · rename_i hunborn
      cases hu
      obtain ⟨sent, hlog⟩ := hsound.logs
      have hprinted : s.printed = ([] : List (PeerId × String)).map line := hsound.silent hunborn
      exact .running rfl hlog.waits_subscribe (List.append_nil _).symm hprinted
    · cases hu
  exact Lts.run_filterMap (I := fun s values => s.Sound ∧ s.Prints values)
    (fun s act t values _ h hs => ⟨h.1.step hs, h.2.step h.1 hs⟩) hstart hafter

theorem Sound.polls {receiver : ℕ} {waiting : List (PeerId × String)} (h : s.Sound)
    (hrun : s.task = .running receiver) (hwaits : s.service.messageTx.Waits receiver waiting) :
    s.Polls waiting := by
  have hcap : s.service.messageTx.capacity = 128 := h.capacity
  cases waiting with
  | nil => simp only [Polls, Printer.step, hrun, hwaits.recv_nil]
  | cons msg later =>
      by_cases hlen : later.length < 128
      · obtain ⟨ch, hr, -⟩ := hwaits.recv_item (hcap ▸ hlen)
        refine ⟨{ s with service := ⟨ch⟩, printed := s.printed ++ [line msg] }, ?_, ?_⟩
        · simp only [Printer.step, hrun, hr]
        · rw [if_pos hlen]
          exact ⟨rfl, rfl⟩
      · obtain ⟨ch, hr, -⟩ := hwaits.recv_lagged (by rw [hcap, List.length_cons]; omega)
        refine ⟨{ s with service := ⟨ch.drop receiver⟩, task := .ended }, ?_, ?_⟩
        · simp only [Printer.step, hrun, hr]
        · rw [if_neg hlen]
          exact ⟨rfl, rfl⟩

theorem run_ended {more : List PrinterAct} (hend : s.task = .ended) (hr : Lts.run step s more = some t) :
    t.task = .ended ∧ t.printed = s.printed := by
  refine Lts.run_invariant (I := fun t => t.task = .ended ∧ t.printed = s.printed) ?_ ⟨hend, rfl⟩ hr
  rintro u act v ⟨hend, hprinted⟩ hs
  cases act with
  | spawn | poll => simp [Printer.step, hend] at hs
  | handleMessage sender payload =>
      cases hs
      exact ⟨hend, hprinted⟩

end Printer

end OmniMesh.Service
