import OmniMesh.Lib.Table
import OmniMesh.Service.Rpc

/-!
# Calls and their answers
-/

namespace OmniMesh.Service
open OmniMesh.Core

/-! ## Messages -/

theorem RpcRequest.message_fits {r : RpcRequest} (hm : r.method.utf8ByteSize < 2 ^ 64)
    (hp : r.payload.length < 2 ^ 64) : RpcMessage.codec.Fits r.message :=
  ⟨Codec.u64_fits _, lt_of_lt_of_eq hm (by norm_num), lt_of_lt_of_eq hp (by norm_num)⟩

theorem response_fits {id : UInt64} {payload : Except String Bytes} (h : payloadSize payload < 2 ^ 64) :
    RpcMessage.codec.Fits (.response id payload) := by
  have h' := lt_of_lt_of_eq h (show 2 ^ 64 = 256 ^ 8 by norm_num)
  cases payload with
  | ok payload => exact ⟨Codec.u64_fits _, h'⟩
  | error text => exact ⟨Codec.u64_fits _, h'⟩

/-! ## Steps -/

namespace RpcService

variable {s t : RpcService} {act : RpcAct}

/-- What a step can do. -/
inductive Moves (s : RpcService) : RpcAct → RpcService → Prop
  | reserve {target method payload} :
      method.utf8ByteSize < 2 ^ 64 → payload.length < 2 ^ 64 →
      Moves s (.reserve target method payload) { s with
        nextRequestId := s.nextRequestId + 1
        calls := s.calls ++ [⟨⟨target, s.nextRequestId, method, payload⟩, .empty, .reserved⟩] }
  | register {i request channel} : s.calls[i]? = some ⟨request, channel, .reserved⟩ →
      Moves s (.register i) (s.register i request.requestId)
  | advance {act i request channel old new} : s.calls[i]? = some ⟨request, channel, old⟩ →
      old = .sending ∨ old = .waiting → new ≠ .reserved →
      (∀ payload, new = .answered payload → ∃ n sender, channel = .filled n sender payload) →
      Moves s act (s.advance i new)
  | ignore {n sender payload} : Moves s (.deliver n sender payload) s
  | spawn {n sender bytes id method payload} :
      RpcMessage.codec.deserialize bytes = .ok (.request id method payload) →
      Moves s (.deliver n sender bytes) { s with
        tasks := s.tasks ++ [⟨⟨n, sender, id, method, payload⟩, none⟩] }
  | answer {n sender bytes id payload i} :
      RpcMessage.codec.deserialize bytes = .ok (.response id payload) →
      s.pendingRequests.lookup id = some i →
      Moves s (.deliver n sender bytes) { s with
        pendingRequests := s.pendingRequests.erase id
        calls := s.calls.modify i fun c => { c with channel := .filled n sender payload } }
  | finish {k invocation outcome} : s.tasks[k]? = some ⟨invocation, none⟩ →
      payloadSize (outcomePayload outcome) < 2 ^ 64 →
      Moves s (.finish k outcome) { s with tasks := s.tasks.set k ⟨invocation, some outcome⟩ }

theorem handleMessage_moves (s : RpcService) (n : ℕ) (sender : PeerId) (payload : Bytes) :
    s.Moves (.deliver n sender payload) (s.handleMessage n sender payload).2 := by
  unfold handleMessage
  split
  · exact .ignore
  · rename_i hd
    exact .spawn hd
  · rename_i hd
    split
    · exact .ignore
    · rename_i hp
      exact .answer hd hp

theorem step_moves (h : s.step act = some t) : s.Moves act t := by
  cases act with
  | reserve target method request =>
      simp only [step] at h
      split at h
      · rename_i hfits
        cases h
        exact .reserve hfits.1 hfits.2
      · cases h
  | register i =>
      simp only [step] at h
      split at h
      · rename_i hc
        cases h
        exact .register hc
      · cases h
  | sent i outcome =>
      simp only [step] at h
      split at h
      · rename_i hc
        cases h
        exact .advance hc (.inl rfl) nofun nofun
      · rename_i hc
        cases h
        exact .advance hc (.inl rfl) nofun nofun
      · cases h
  | received i =>
      simp only [step] at h
      split at h
      · rename_i hc
        cases h
        refine .advance hc (.inr rfl) nofun fun payload hp => ?_
        cases hp
        exact ⟨_, _, rfl⟩
      · rename_i hc
        cases h
        exact .advance hc (.inr rfl) nofun nofun
      · cases h
  | drop i =>
      simp only [step] at h
      split at h
      · rename_i hc
        cases h
        exact .advance hc (.inl rfl) nofun nofun
      · rename_i hc
        cases h
        exact .advance hc (.inr rfl) nofun nofun
      · cases h
  | deliver n sender payload =>
      cases h
      exact handleMessage_moves s n sender payload
  | finish k outcome =>
      simp only [step] at h
      split at h
      · rename_i hk
        split at h
        · rename_i hfits
          cases h
          exact .finish hk hfits
        · cases h
      · cases h

/-! ## What a step does to a call -/

section
variable {i j : ℕ} {c : RpcCall} {id : UInt64} {new : Progress}

theorem getElem?_register : (s.register i id).calls[j]? = s.calls[j]?.map fun c =>
    ⟨c.request, if s.pendingRequests.lookup id = some j then .closed else c.channel,
      if i = j then .sending else c.progress⟩ := by
  simp only [register]
  cases hold : s.pendingRequests.lookup id with
  | none =>
      simp only [List.getElem?_modify, reduceCtorEq, if_false]
      cases s.calls[j]? with
      | none => rfl
      | some c =>
          by_cases hi : i = j
          · simp [hi]
          · simp [hi]
  | some old =>
      simp only [List.getElem?_modify, Option.some.injEq]
      cases s.calls[j]? with
      | none => rfl
      | some c =>
          by_cases hi : i = j
          · by_cases ho : old = j
            · simp [hi, ho]
            · simp [hi, ho]
          · by_cases ho : old = j
            · simp [hi, ho]
            · simp [hi, ho]

/-- A call whose channel an insert into the table has not closed. -/
theorem register_some {c' : RpcCall} (hi : (s.register i id).calls[j]? = some c') (hc : c'.channel ≠ .closed) :
    ∃ c, s.calls[j]? = some c ∧ s.pendingRequests.lookup id ≠ some j ∧
      c' = ⟨c.request, c.channel, if i = j then .sending else c.progress⟩ := by
  rw [getElem?_register] at hi
  obtain ⟨c, hci, rfl⟩ := Option.map_eq_some_iff.mp hi
  have hfree : s.pendingRequests.lookup id ≠ some j := fun hold => hc (if_pos hold)
  exact ⟨c, hci, hfree, by rw [if_neg hfree]⟩

theorem getElem?_advance : (s.advance i new).calls[j]? = s.calls[j]?.map fun c =>
    { c with progress := if i = j then new else c.progress } := by
  simp only [advance, List.getElem?_modify]
  cases s.calls[j]? with
  | none => rfl
  | some c =>
      by_cases hi : i = j
      · simp [hi]
      · simp [hi]

theorem getElem?_fill {channel : Channel} :
    (s.calls.modify i fun c => { c with channel })[j]? = s.calls[j]?.map fun c =>
      { c with channel := if i = j then channel else c.channel } := by
  simp only [List.getElem?_modify]
  cases s.calls[j]? with
  | none => rfl
  | some c =>
      by_cases hi : i = j
      · simp [hi]
      · simp [hi]

end

/-! ## Every run -/

/-- An answered call has what its channel holds. -/
structure Consistent (c : RpcCall) : Prop where
  reserved : c.progress = .reserved → c.channel = .empty
  answered : ∀ payload, c.progress = .answered payload → ∃ n sender, c.channel = .filled n sender payload

/-- An entry of the table belongs to a call with its number whose channel nothing was sent to. -/
structure Wf (s : RpcService) : Prop where
  pending : ∀ (id : UInt64) (i : ℕ), s.pendingRequests.lookup id = some i →
    ∃ c, s.calls[i]? = some c ∧ c.request.requestId = id ∧ c.channel = .empty ∧ c.progress ≠ .reserved
  calls : ∀ (i : ℕ) (c : RpcCall), s.calls[i]? = some c → Consistent c

theorem new_wf : Wf new where
  pending _ _ h := by cases h
  calls _ _ h := by cases h

theorem Wf.register {i : ℕ} {request : RpcRequest} {channel : Channel} (h : Wf s)
    (hi : s.calls[i]? = some ⟨request, channel, .reserved⟩) : Wf (s.register i request.requestId) := by
  have hempty : channel = .empty := (h.calls i _ hi).reserved rfl
  have hnot : ∀ id, s.pendingRequests.lookup id ≠ some i := by
    intro id hp
    obtain ⟨c, hc, -, -, hres⟩ := h.pending id i hp
    rw [hi] at hc
    cases hc
    exact hres rfl
  refine ⟨fun id j hj => ?_, fun j c' hc' => ?_⟩
  · rw [getElem?_register]
    by_cases hid : id = request.requestId
    · subst hid
      simp only [RpcService.register, AList.lookup_insert] at hj
      cases hj
      rw [hi]
      exact ⟨_, rfl, rfl, by simp [hnot, hempty], by simp⟩
    · simp only [RpcService.register, AList.lookup_insert_ne hid] at hj
      obtain ⟨c, hc, hcid, hchannel, hprogress⟩ := h.pending id j hj
      have hij : i ≠ j := fun he => hnot id (he ▸ hj)
      have hother : s.pendingRequests.lookup request.requestId ≠ some j := by
        intro hp
        obtain ⟨d, hd, hdid, -⟩ := h.pending _ _ hp
        rw [hc] at hd
        cases hd
        exact hid (hcid.symm.trans hdid)
      rw [hc]
      exact ⟨_, rfl, hcid, by simp [hother, hchannel], by simp [hij, hprogress]⟩
  · rw [getElem?_register] at hc'
    obtain ⟨c, hc, rfl⟩ := Option.map_eq_some_iff.mp hc'
    by_cases hij : i = j
    · simp only [hij, if_true]
      exact ⟨nofun, nofun⟩
    · simp only [hij, if_false]
      split
      · rename_i hold
        obtain ⟨d, hd, -, hchannel, hprogress⟩ := h.pending _ _ hold
        rw [hc] at hd
        cases hd
        refine ⟨fun hp => absurd hp hprogress, fun payload hp => ?_⟩
        obtain ⟨n, sender, hfilled⟩ := (h.calls j c hc).answered payload hp
        cases hchannel.symm.trans hfilled
      · exact h.calls j c hc

theorem Wf.advance {i : ℕ} {request : RpcRequest} {channel : Channel} {old new : Progress} (h : Wf s)
    (hi : s.calls[i]? = some ⟨request, channel, old⟩) (hnew : new ≠ .reserved)
    (hanswer : ∀ payload, new = .answered payload → ∃ n sender, channel = .filled n sender payload) :
    Wf (s.advance i new) := by
  refine ⟨fun id j hj => ?_, fun j c' hc' => ?_⟩
  · obtain ⟨c, hc, hcid, hchannel, hprogress⟩ := h.pending id j hj
    rw [getElem?_advance, hc]
    refine ⟨_, rfl, hcid, hchannel, ?_⟩
    simp only
    split
    · exact hnew
    · exact hprogress
  · rw [getElem?_advance] at hc'
    obtain ⟨c, hc, rfl⟩ := Option.map_eq_some_iff.mp hc'
    by_cases hij : i = j
    · subst hij
      rw [hi] at hc
      cases hc
      simp only [if_true]
      exact ⟨fun hp => absurd hp hnew, hanswer⟩
    · simp only [hij, if_false]
      exact h.calls j c hc

theorem Wf.fill {i : ℕ} {id : UInt64} {n : ℕ} {sender : PeerId} {payload : Except String Bytes} (h : Wf s)
    (hp : s.pendingRequests.lookup id = some i) :
    Wf { s with
      pendingRequests := s.pendingRequests.erase id
      calls := s.calls.modify i fun c => { c with channel := .filled n sender payload } } := by
  obtain ⟨d, hd, hdid, hempty, hprogress⟩ := h.pending id i hp
  refine ⟨fun id' j hj => ?_, fun j c' hc' => ?_⟩
  · have hne : id' ≠ id := by
      rintro rfl
      simp at hj
    simp only [AList.lookup_erase_ne hne] at hj
    obtain ⟨c, hc, hcid, hchannel, hprogress'⟩ := h.pending id' j hj
    have hij : i ≠ j := by
      rintro rfl
      rw [hd] at hc
      cases hc
      exact hne (hcid.symm.trans hdid)
    simp only [getElem?_fill, hc]
    exact ⟨_, rfl, hcid, by simp [hij, hchannel], hprogress'⟩
  · simp only [getElem?_fill] at hc'
    obtain ⟨c, hc, rfl⟩ := Option.map_eq_some_iff.mp hc'
    by_cases hij : i = j
    · subst hij
      rw [hd] at hc
      cases hc
      refine ⟨fun hp => absurd hp hprogress, fun payload' hp => ?_⟩
      obtain ⟨_, _, hfilled⟩ := (h.calls i d hd).answered payload' hp
      cases hempty.symm.trans hfilled
    · simp only [hij, if_false]
      exact h.calls j c hc

theorem Wf.step (h : Wf s) (hs : s.step act = some t) : Wf t := by
  cases step_moves hs with
  | reserve _ _ =>
      refine ⟨fun id i hi => ?_, fun i c hc => ?_⟩
      · obtain ⟨c, hc, hrest⟩ := h.pending id i hi
        exact ⟨c, Table.getElem?_concat_of_some hc, hrest⟩
      · rcases Table.getElem?_concat_some hc with hc | ⟨-, rfl⟩
        · exact h.calls i c hc
        · exact ⟨fun _ => rfl, nofun⟩
  | register hi => exact h.register hi
  | advance hi _ hnew hanswer => exact h.advance hi hnew hanswer
  | ignore => exact h
  | spawn _ => exact ⟨h.pending, h.calls⟩
  | answer _ hp => exact h.fill hp
  | finish _ _ => exact ⟨h.pending, h.calls⟩

theorem run_wf {acts : List RpcAct} (hr : Lts.run step new acts = some s) : Wf s :=
  Lts.run_invariant (fun _ _ _ h hs => h.step hs) new_wf hr

/-! ## Where answers come from -/

section
variable {i n : ℕ} {sender : PeerId} {payload : Except String Bytes}

/-- A channel is filled by a message with a response for its call, and by nothing else. -/
theorem Wf.filled_step {c' : RpcCall} (h : Wf s) (hs : s.step act = some t) (hi : t.calls[i]? = some c')
    (hc : c'.channel = .filled n sender payload) :
    (∃ c, s.calls[i]? = some c ∧ c.channel = .filled n sender payload ∧ c.request = c'.request) ∨
      ∃ bytes, act = .deliver n sender bytes ∧
        RpcMessage.codec.deserialize bytes = .ok (.response c'.request.requestId payload) := by
  cases step_moves hs with
  | reserve _ _ =>
      rcases Table.getElem?_concat_some hi with hi | ⟨-, rfl⟩
      · exact .inl ⟨c', hi, hc, rfl⟩
      · cases hc
  | register _ =>
      obtain ⟨c, hci, -, rfl⟩ := register_some hi (by simp [hc])
      exact .inl ⟨c, hci, hc, rfl⟩
  | advance _ _ _ _ =>
      rw [getElem?_advance] at hi
      obtain ⟨c, hci, rfl⟩ := Option.map_eq_some_iff.mp hi
      exact .inl ⟨c, hci, hc, rfl⟩
  | ignore => exact .inl ⟨c', hi, hc, rfl⟩
  | spawn _ => exact .inl ⟨c', hi, hc, rfl⟩
  | finish _ _ => exact .inl ⟨c', hi, hc, rfl⟩
  | @answer n' sender' bytes id payload' j hd hp =>
      simp only [getElem?_fill] at hi
      obtain ⟨c, hci, rfl⟩ := Option.map_eq_some_iff.mp hi
      by_cases hij : j = i
      · subst hij
        simp only [if_true] at hc
        cases hc
        obtain ⟨d, hd', hdid, -, -⟩ := h.pending id j hp
        rw [hci] at hd'
        cases hd'
        exact .inr ⟨bytes, rfl, hdid ▸ hd⟩
      · simp only [hij, if_false] at hc
        exact .inl ⟨c, hci, hc, rfl⟩

theorem Wf.filled_run {acts : List RpcAct} {c' : RpcCall} (h : Wf s) (hr : Lts.run RpcService.step s acts = some t)
    (hi : t.calls[i]? = some c') (hc : c'.channel = .filled n sender payload) :
    (∃ c, s.calls[i]? = some c ∧ c.channel = .filled n sender payload ∧ c.request = c'.request) ∨
      ∃ bytes, .deliver n sender bytes ∈ acts ∧
        RpcMessage.codec.deserialize bytes = .ok (.response c'.request.requestId payload) := by
  induction acts generalizing s with
  | nil =>
      cases hr
      exact .inl ⟨c', hi, hc, rfl⟩
  | cons act acts ih =>
      obtain ⟨u, hs, hr⟩ := Lts.run_cons hr
      rcases ih (h.step hs) hr with ⟨c, hci, hcc, hreq⟩ | ⟨bytes, hmem, hd⟩
      · rcases h.filled_step hs hci hcc with ⟨c₀, hc₀, hcc₀, hreq₀⟩ | ⟨bytes, rfl, hd⟩
        · exact .inl ⟨c₀, hc₀, hcc₀, hreq₀.trans hreq⟩
        · exact .inr ⟨bytes, List.mem_cons_self, hreq ▸ hd⟩
      · exact .inr ⟨bytes, List.mem_cons_of_mem _ hmem, hd⟩

/-- What a call that has not failed and was not dropped finds in its channel comes from its target. -/
def Genuine (s : RpcService) : Prop :=
  ∀ (i : ℕ) (c : RpcCall) (n : ℕ) (sender : PeerId) (payload : Except String Bytes),
    s.calls[i]? = some c → c.channel = .filled n sender payload →
    (c.progress = .sending ∨ c.progress = .waiting ∨ ∃ p, c.progress = .answered p) →
    sender = c.request.target

theorem Genuine.step (hwf : Wf s) (h : Genuine s) (hf : s.FromCallee act) (hs : s.step act = some t) :
    Genuine t := by
  intro i c' n sender payload hi hc hp
  cases step_moves hs with
  | reserve _ _ =>
      rcases Table.getElem?_concat_some hi with hi | ⟨-, rfl⟩
      · exact h i c' n sender payload hi hc hp
      · cases hc
  | @register j request channel hj =>
      obtain ⟨c, hci, -, rfl⟩ := register_some hi (by simp [hc])
      by_cases hij : j = i
      · -- the channel of a call that is only reserved is empty
        subst hij
        rw [hj] at hci
        cases hci
        cases ((hwf.calls _ _ hj).reserved rfl).symm.trans hc
      · simp only [hij, if_false] at hp
        exact h i c n sender payload hci hc hp
  | @advance _ j request channel old new hj hold _ _ =>
      rw [getElem?_advance] at hi
      obtain ⟨c, hci, rfl⟩ := Option.map_eq_some_iff.mp hi
      by_cases hij : j = i
      · subst hij
        rw [hj] at hci
        cases hci
        exact h j ⟨request, channel, old⟩ n sender payload hj hc (hold.imp id .inl)
      · simp only [hij, if_false] at hp
        exact h i c n sender payload hci hc hp
  | ignore => exact h i c' n sender payload hi hc hp
  | spawn _ => exact h i c' n sender payload hi hc hp
  | finish _ _ => exact h i c' n sender payload hi hc hp
  | @answer n' sender' bytes id payload' j hd hpending =>
      simp only [getElem?_fill] at hi
      obtain ⟨c, hci, rfl⟩ := Option.map_eq_some_iff.mp hi
      by_cases hij : j = i
      · subst hij
        simp only [if_true] at hc
        cases hc
        refine hf id payload j c hd hpending hci ?_
        rcases hp with hp | hp | ⟨p, hp⟩
        · exact .inl hp
        · exact .inr hp
        · obtain ⟨d, hd', -, hempty, -⟩ := hwf.pending id j hpending
          rw [hci] at hd'
          cases hd'
          obtain ⟨_, _, hfilled⟩ := (hwf.calls j c hci).answered p hp
          cases hempty.symm.trans hfilled
      · simp only [hij, if_false] at hc
        exact h i c n sender payload hci hc hp

theorem run_genuine {acts : List RpcAct} (hm : Lts.Meets step FromCallee new acts)
    (hr : Lts.run step new acts = some s) : Genuine s := by
  have hboth := Lts.Meets.invariant (I := fun s => Wf s ∧ Genuine s)
    (fun _ _ _ h hf hs => ⟨h.1.step hs, h.2.step h.1 hf hs⟩) ⟨new_wf, fun _ _ _ _ _ hi => ?_⟩ hm hr
  · exact hboth.2
  · cases hi

/-- A call whose channel is filled returns what it holds, unless it fails or is dropped. -/
theorem exists_run_answered {request : RpcRequest} {progress : Progress}
    (hi : s.calls[i]? = some ⟨request, .filled n sender payload, progress⟩)
    (hp : progress = .sending ∨ progress = .waiting) :
    ∃ more u, Lts.run step s more = some u ∧
      u.calls[i]? = some ⟨request, .filled n sender payload, .answered payload⟩ := by
  have hwaiting : ∀ {s : RpcService}, s.calls[i]? = some ⟨request, .filled n sender payload, .waiting⟩ →
      s.step (.received i) = some (s.advance i (.answered payload)) ∧
      (s.advance i (.answered payload)).calls[i]? =
        some ⟨request, .filled n sender payload, .answered payload⟩ := by
    intro s hs
    simp [step, hs, getElem?_advance]
  rcases hp with rfl | rfl
  · have hsent : s.step (.sent i (.ok ())) = some (s.advance i .waiting) := by simp [step, hi]
    have hnext := hwaiting (s := s.advance i .waiting) (by simp [getElem?_advance, hi])
    exact ⟨[.sent i (.ok ()), .received i], _, by simp [Lts.run, hsent, hnext.1], hnext.2⟩
  · exact ⟨[.received i], _, by simp [Lts.run, (hwaiting hi).1], (hwaiting hi).2⟩

/-- A response from another peer is enough for the call to return it. -/
theorem exists_foreign_answer (hf : ¬ s.FromCallee act) (hs : s.step act = some t) :
    ∃ (more : List RpcAct) (u : RpcService) (i : ℕ) (c : RpcCall) (n : ℕ) (sender : PeerId)
      (payload : Except String Bytes), Lts.run RpcService.step t more = some u ∧ u.calls[i]? = some c ∧
      c.progress = .answered payload ∧ c.channel = .filled n sender payload ∧
      sender ≠ c.request.target := by
  cases act with
  | reserve _ _ _ => exact absurd trivial hf
  | register _ => exact absurd trivial hf
  | sent _ _ => exact absurd trivial hf
  | received _ => exact absurd trivial hf
  | drop _ => exact absurd trivial hf
  | finish _ _ => exact absurd trivial hf
  | deliver n sender bytes =>
      simp only [FromCallee, not_forall] at hf
      obtain ⟨id, payload, i, c, hd, hp, hc, hprogress, hne⟩ := hf
      simp only [RpcService.step, handleMessage, hd, hp, Option.some.injEq] at hs
      subst hs
      have hfilled : (s.calls.modify i fun c => { c with channel := .filled n sender payload })[i]? =
          some ⟨c.request, .filled n sender payload, c.progress⟩ := by
        simp [hc]
      obtain ⟨more, u, hr, hu⟩ := exists_run_answered (s := { s with
        pendingRequests := s.pendingRequests.erase id
        calls := s.calls.modify i fun c => { c with channel := .filled n sender payload } }) hfilled hprogress
      exact ⟨more, u, i, _, n, sender, payload, hr, hu, rfl, rfl, hne⟩

end

end RpcService

end OmniMesh.Service
