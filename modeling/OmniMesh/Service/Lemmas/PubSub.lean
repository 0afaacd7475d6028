import OmniMesh.Service.PubSub

/-!
# What a receiver is sent
-/

namespace OmniMesh.Service.PubSubService
open OmniMesh.Core

variable {s t : PubSubService} {act : PubSubAct} {acts : List PubSubAct} {topic : String} {i : ℕ}
  {subs : List ℕ} {payload : Bytes} {channels : List UnboundedChannel} {sent : List Bytes}

def senders (s : PubSubService) (topic : String) : List ℕ := (s.subscriptions.lookup topic).getD []

/-- Every sender is in the list of one topic, once, and leads to a channel. -/
structure WellFormed (s : PubSubService) : Prop where
  nodup : ∀ topic, (s.senders topic).Nodup
  bound : ∀ topic, ∀ i ∈ s.senders topic, i < s.channels.length
  one : ∀ topic topic', ∀ i ∈ s.senders topic, i ∈ s.senders topic' → topic = topic'

theorem senders_subscribe (topic' : String) : (s.subscribe topic).senders topic' =
    if topic' = topic then s.senders topic ++ [s.channels.length] else s.senders topic' := by
  simp only [subscribe, senders]
  split
  · rename_i h
    subst h
    rw [AList.lookup_insert]
    rfl
  · rename_i h
    rw [AList.lookup_insert_ne h]

theorem mem_senders_subscribe {topic'} : i ∈ (s.subscribe topic).senders topic' ↔
    i ∈ s.senders topic' ∨ i = s.channels.length ∧ topic' = topic := by
  rw [senders_subscribe]
  split
  · rename_i h
    subst h
    simp
  · rename_i h
    simp [h]

theorem forward_length : (forward subs payload channels).length = channels.length := by
  induction subs generalizing channels with
  | nil => rfl
  | cons sub subs ih => exact ih.trans (List.length_modify ..)

theorem getElem?_forward (h : subs.Nodup) : (forward subs payload channels)[i]? =
    if i ∈ subs then channels[i]?.map (.send payload) else channels[i]? := by
  induction subs generalizing channels with
  | nil => rfl
  | cons sub subs ih =>
      obtain ⟨hnot, hnodup⟩ := List.nodup_cons.mp h
      refine (ih hnodup).trans ?_
      by_cases hi : i = sub
      · subst hi
        simp [hnot]
      · simp [hi, Ne.symm hi]

/-! ## Steps -/

/-- What a step can do. -/
inductive Moves (s : PubSubService) : PubSubAct → PubSubService → Prop
  | subscribed {topic : String} : Moves s (.subscribe topic) (s.subscribe topic)
  | malformed {sender : PeerId} {payload : Bytes} {e : String} :
      PubSubMessage.codec.deserialize payload = .error e →
      Moves s (.handleMessage sender payload) s
  | forwarded {sender : PeerId} {payload : Bytes} {msg : PubSubMessage} :
      PubSubMessage.codec.deserialize payload = .ok msg →
      Moves s (.handleMessage sender payload)
        { s with channels := forward (s.senders msg.topic) msg.payload s.channels }
  | dropped {receiver : ℕ} : Moves s (.dropReceiver receiver)
      { s with channels := s.channels.modify receiver fun c => { c with dropped := true } }

theorem step_moves (hs : s.step act = some t) : s.Moves act t := by
  cases act with
  | subscribe topic =>
      cases hs
      exact .subscribed
  | handleMessage sender payload =>
      simp only [step, handleMessage, Option.some.injEq] at hs
      split at hs
      · rename_i e hd
        subst hs
        exact .malformed hd
      · rename_i msg hd
        have hmove : s.Moves (.handleMessage sender payload) _ := .forwarded hd
        split at hs
        · rename_i subs hl
          simp only [senders, hl, Option.getD_some] at hmove
          exact hs ▸ hmove
        · rename_i hl
          simp only [senders, hl, Option.getD_none] at hmove
          exact hs ▸ hmove
  | dropReceiver receiver =>
      simp only [step] at hs
      split at hs
      · cases hs
        exact .dropped
      · cases hs

theorem new_wellFormed : WellFormed new where
  nodup _ := .nil
  bound _ _ h := absurd h List.not_mem_nil
  one _ _ _ h := absurd h List.not_mem_nil

theorem WellFormed.subscribe (h : WellFormed s) (topic : String) : WellFormed (s.subscribe topic) where
  nodup topic' := by
    rw [senders_subscribe]
    split
    · refine List.nodup_append.mpr ⟨h.nodup topic, List.nodup_singleton _, fun i hi j hj => ?_⟩
      rw [List.mem_singleton.mp hj]
      exact (h.bound topic i hi).ne
    · exact h.nodup topic'
  bound topic' i hi := by
    rw [PubSubService.subscribe, List.length_append, List.length_singleton]
    rcases mem_senders_subscribe.mp hi with hi | ⟨rfl, -⟩
    · exact Nat.lt_succ_of_lt (h.bound topic' i hi)
    · exact Nat.lt_succ_self _
  one topic₁ topic₂ i h₁ h₂ := by
    rcases mem_senders_subscribe.mp h₁ with h₁ | ⟨rfl, rfl⟩
    · rcases mem_senders_subscribe.mp h₂ with h₂ | ⟨rfl, -⟩
      · exact h.one topic₁ topic₂ i h₁ h₂
      · exact absurd (h.bound topic₁ _ h₁) (Nat.lt_irrefl _)
    · rcases mem_senders_subscribe.mp h₂ with h₂ | ⟨-, rfl⟩
      · exact absurd (h.bound topic₂ _ h₂) (Nat.lt_irrefl _)
      · rfl

theorem WellFormed.of_length (h : WellFormed s) (hlen : channels.length = s.channels.length) :
    WellFormed { s with channels } :=
  ⟨h.nodup, fun topic i hi => (h.bound topic i hi).trans_eq hlen.symm, h.one⟩

theorem WellFormed.step (h : WellFormed s) (hs : s.step act = some t) : WellFormed t := by
  cases step_moves hs with
  | subscribed => exact h.subscribe _
  | malformed => exact h
  | forwarded => exact h.of_length forward_length
  | dropped => exact h.of_length (List.length_modify ..)

/-- The channel of a receiver that is not dropped takes what its topic brings, and nothing else. -/
theorem channel_step (h : WellFormed s) (hs : s.step act = some t) (hsub : i ∈ s.senders topic)
    (hc : s.channels[i]? = some ⟨false, sent⟩) (hdrop : act ≠ .dropReceiver i) :
    i ∈ t.senders topic ∧ t.channels[i]? = some ⟨false, sent ++ (act.payloadFor topic).toList⟩ := by
  cases step_moves hs with
  | subscribed =>
      refine ⟨mem_senders_subscribe.mpr (.inl hsub), ?_⟩
      simp only [subscribe, PubSubAct.payloadFor, Option.toList_none, List.append_nil]
      rw [List.getElem?_append_left (h.bound topic i hsub)]
      exact hc
  | malformed hd =>
      simp only [PubSubAct.payloadFor, hd, Option.toList_none, List.append_nil]
      exact ⟨hsub, hc⟩
  | @forwarded sender payload msg hd =>
      refine ⟨hsub, ?_⟩
      simp only [PubSubAct.payloadFor, hd]
      rw [getElem?_forward (h.nodup _), hc]
      by_cases ht : msg.topic = topic
      · subst ht
        simp [hsub, UnboundedChannel.send]
      · have hnot : i ∉ s.senders msg.topic := fun hi => ht (h.one _ _ i hi hsub)
        simp [ht, hnot]
  | @dropped receiver =>
      refine ⟨hsub, ?_⟩
      have hne : receiver ≠ i := fun he => hdrop (congrArg _ he)
      simp [PubSubAct.payloadFor, hne, hc]

theorem payloadFor_formatPublish {topic' : String} {sender : PeerId} (ht : topic'.utf8ByteSize < 256 ^ 8)
    (hp : payload.length < 256 ^ 8) :
    PubSubAct.payloadFor topic (.handleMessage sender (formatPublish topic' payload)) =
      if topic' = topic then some payload else none := by
  have hfits : PubSubMessage.codec.Fits ⟨topic', payload⟩ := ⟨ht, hp⟩
  simp only [PubSubAct.payloadFor, formatPublish, Codec.deserialize_serialize hfits]

/-! ## Runs -/

theorem run_wellFormed (hr : Lts.run step new acts = some s) : WellFormed s :=
  Lts.run_invariant (fun _ _ _ h hs => h.step hs) new_wellFormed hr

theorem channels_length (hr : Lts.run step s acts = some t) :
    t.channels.length = s.channels.length + acts.countP PubSubAct.isSubscribe := by
  induction acts generalizing s with
  | nil =>
      cases hr
      rfl
  | cons act acts ih =>
      obtain ⟨u, hu, hr⟩ := Lts.run_cons hr
      rw [ih hr, List.countP_cons]
      cases step_moves hu with
      | subscribed =>
          simp only [subscribe, List.length_append, List.length_singleton, PubSubAct.isSubscribe, if_true]
          omega
      | malformed => rfl
      | forwarded => rw [forward_length]; rfl
      | dropped => rw [List.length_modify]; rfl

theorem channel_run (h : WellFormed s) (hr : Lts.run step s acts = some t) (hsub : i ∈ s.senders topic)
    (hc : s.channels[i]? = some ⟨false, sent⟩) (hdrop : .dropReceiver i ∉ acts) :
    t.channels[i]? = some ⟨false, sent ++ acts.filterMap (PubSubAct.payloadFor topic)⟩ := by
  induction acts generalizing s sent with
  | nil =>
      cases hr
      simpa using hc
  | cons act acts ih =>
      obtain ⟨u, hu, hr⟩ := Lts.run_cons hr
      obtain ⟨hne, hdrop⟩ := not_or.mp (mt List.mem_cons.mpr hdrop)
      obtain ⟨hsub, hc⟩ := channel_step h hu hsub hc (Ne.symm hne)
      rw [ih (h.step hu) hr hsub hc hdrop, List.filterMap_cons, List.append_assoc]
      cases act.payloadFor topic <;> rfl

/-- The receiver of a `subscribe` in the middle of a run. -/
theorem run_subscribe {before after : List PubSubAct}
    (hr : Lts.run step new (before ++ .subscribe topic :: after) = some t)
    (hdrop : .dropReceiver (before.countP PubSubAct.isSubscribe) ∉ after) :
    t.channels[before.countP PubSubAct.isSubscribe]? =
      some ⟨false, after.filterMap (PubSubAct.payloadFor topic)⟩ := by
  rw [Lts.run_append] at hr
  obtain ⟨s, hbefore, hr⟩ := Option.bind_eq_some_iff.mp hr
  obtain ⟨u, hu, hafter⟩ := Lts.run_cons hr
  cases hu
  have hwf := run_wellFormed hbefore
  have hlen : s.channels.length = before.countP PubSubAct.isSubscribe := by
    rw [channels_length hbefore]
    exact Nat.zero_add _
  rw [← hlen] at hdrop ⊢
  have hsub : s.channels.length ∈ (s.subscribe topic).senders topic :=
    mem_senders_subscribe.mpr (.inr ⟨rfl, rfl⟩)
  have hc : (s.subscribe topic).channels[s.channels.length]? = some ⟨false, []⟩ := by
    rw [subscribe, List.getElem?_concat_length]
    rfl
  exact channel_run (hwf.subscribe topic) hafter hsub hc hdrop

end OmniMesh.Service.PubSubService
