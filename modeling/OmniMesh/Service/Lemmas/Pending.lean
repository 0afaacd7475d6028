import OmniMesh.Service.Lemmas.Rpc

/-!
# The table of pending requests
-/

namespace OmniMesh.Service
open OmniMesh.Core

theorem RpcCall.Waits.ne_reserved {c : RpcCall} (h : c.Waits) : c.progress ≠ .reserved := by
  rcases h.2 with he | he
  · simp [he]
  · simp [he]

namespace RpcService

variable {s t : RpcService} {act : RpcAct} {i : ℕ}

/-! ## Entries -/

/-- A call with an entry keeps it until something comes for it. -/
def Registered (s : RpcService) : Prop :=
  ∀ (i : ℕ) (c : RpcCall), s.calls[i]? = some c → c.channel = .empty → c.progress ≠ .reserved →
    s.pendingRequests.lookup c.request.requestId = some i

theorem Registered.register {j : ℕ} {request : RpcRequest} {channel : Channel} (h : Registered s)
    (hj : s.calls[j]? = some ⟨request, channel, .reserved⟩) :
    Registered (s.register j request.requestId) := by
  intro i c' hi hc hp
  obtain ⟨c, hci, hfree, rfl⟩ := register_some hi (by simp [hc])
  by_cases hij : j = i
  · subst hij
    rw [hj] at hci
    cases hci
    exact AList.lookup_insert _
  · simp only [hij, if_false] at hp
    have hold := h i c hci hc hp
    have hne : c.request.requestId ≠ request.requestId := fun he => hfree (he ▸ hold)
    exact (AList.lookup_insert_ne hne).trans hold

theorem Registered.step (h : Registered s) (hs : s.step act = some t) : Registered t := by
  cases step_moves hs with
  | register hj => exact h.register hj
  | reserve _ _ =>
      intro i c hi hc hp
      rcases Table.getElem?_concat_some hi with hi | ⟨-, rfl⟩
      · exact h i c hi hc hp
      · exact absurd rfl hp
  | @advance _ j request channel old new hj hold _ _ =>
      intro i c' hi hc hp
      rw [getElem?_advance] at hi
      obtain ⟨c, hci, rfl⟩ := Option.map_eq_some_iff.mp hi
      refine h i c hci hc fun hres => ?_
      by_cases hij : j = i
      · subst hij
        rw [hj] at hci
        cases hci
        rcases hold with rfl | rfl
        · cases hres
        · cases hres
      · simp only [hij, if_false] at hp
        exact hp hres
  | @answer _ _ _ id _ j _ hpending =>
      intro i c' hi hc hp
      simp only [getElem?_fill] at hi
      obtain ⟨c, hci, rfl⟩ := Option.map_eq_some_iff.mp hi
      by_cases hij : j = i
      · simp only [hij, if_true] at hc
        cases hc
      · simp only [hij, if_false] at hc
        have hold := h i c hci hc hp
        have hne : c.request.requestId ≠ id := by
          intro he
          rw [he, hpending] at hold
          exact hij (Option.some.inj hold)
        exact (AList.lookup_erase_ne hne).trans hold
  | ignore => exact h
  | spawn _ => exact h
  | finish _ _ => exact h

theorem run_registered {acts : List RpcAct} (hr : Lts.run step new acts = some s) : Registered s :=
  Lts.run_invariant (I := Registered) (fun _ _ _ h hs => h.step hs) (fun _ _ hi => by cases hi) hr

/-! ## Calls that have not ended -/

/-- A call for which nothing has come has not ended. -/
def Open (s : RpcService) : Prop :=
  ∀ (i : ℕ) (c : RpcCall), s.calls[i]? = some c → c.channel = .empty → c.progress ≠ .reserved →
    c.Waits

theorem Open.advance {request : RpcRequest} {channel : Channel} {old new : Progress} (h : Open s)
    (hi : s.calls[i]? = some ⟨request, channel, old⟩) (hnew : channel ≠ .empty ∨ new = .waiting) :
    Open (s.advance i new) := by
  intro j c' hj hc hp
  rw [getElem?_advance] at hj
  obtain ⟨c, hcj, rfl⟩ := Option.map_eq_some_iff.mp hj
  by_cases hij : i = j
  · subst hij
    rw [hi] at hcj
    cases hcj
    rcases hnew with hne | rfl
    · exact absurd hc hne
    · exact ⟨hc, .inr (if_pos rfl)⟩
  · simp only [hij, if_false] at hp ⊢
    exact h j c hcj hc hp

theorem Open.register {j : ℕ} {id : UInt64} (h : Open s) : Open (s.register j id) := by
  intro i c' hi hc hp
  obtain ⟨c, hci, -, rfl⟩ := register_some hi (by simp [hc])
  by_cases hij : j = i
  · simp only at hc
    simp [RpcCall.Waits, hij, hc]
  · simp only [hij, if_false] at hp ⊢
    exact h i c hci hc hp

theorem Open.handleMessage (h : Open s) (n : ℕ) (sender : PeerId) (payload : Bytes) :
    Open (s.handleMessage n sender payload).2 := by
  unfold RpcService.handleMessage
  split
  · exact h
  · exact h
  · split
    · exact h
    · intro i c' hi hc hp
      simp only [getElem?_fill] at hi
      obtain ⟨c, hci, rfl⟩ := Option.map_eq_some_iff.mp hi
      simp only at hc hp
      split at hc
      · cases hc
      · rename_i hij
        simp only [hij, if_false]
        exact h i c hci hc hp

theorem Open.step (h : Open s) (hk : s.Kept act) (hs : s.step act = some t) : Open t := by
  cases act with
  | reserve target method request =>
      simp only [RpcService.step, Option.ite_none_right_eq_some] at hs
      cases hs.2
      intro i c hi hc hp
      rcases Table.getElem?_concat_some hi with hi | ⟨-, rfl⟩
      · exact h i c hi hc hp
      · exact absurd rfl hp
  | register j =>
      simp only [RpcService.step] at hs
      split at hs
      · cases hs
        exact h.register
      · cases hs
  | sent i outcome =>
      simp only [RpcService.step] at hs
      split at hs
      · rename_i hi
        cases hs
        exact h.advance hi (.inr rfl)
      · rename_i hi
        cases hs
        exact h.advance hi (.inl (hk _ hi))
      · cases hs
  | received i =>
      simp only [RpcService.step] at hs
      split at hs
      · rename_i hi
        cases hs
        exact h.advance hi (.inl (by simp))
      · rename_i hi
        cases hs
        exact h.advance hi (.inl (by simp))
      · cases hs
  | drop i =>
      simp only [RpcService.step] at hs
      split at hs
      · rename_i hi
        cases hs
        exact h.advance hi (.inl (hk _ hi))
      · rename_i hi
        cases hs
        exact h.advance hi (.inl (hk _ hi))
      · cases hs
  | deliver n sender payload =>
      cases hs
      exact h.handleMessage n sender payload
  | finish k outcome =>
      simp only [RpcService.step] at hs
      split at hs
      · cases (Option.ite_none_right_eq_some.mp hs).2
        exact h
      · cases hs

theorem run_open {acts : List RpcAct} (hm : Lts.Meets step Kept new acts)
    (hr : Lts.run step new acts = some s) : Open s :=
  hm.invariant (I := Open) (fun _ _ _ h hk hs => h.step hk hs) (fun _ _ hi => by cases hi) hr

theorem not_open_advance {request : RpcRequest} {old new : Progress}
    (hi : s.calls[i]? = some ⟨request, .empty, old⟩) (hnew : new ≠ .reserved)
    (hends : new ≠ .sending ∧ new ≠ .waiting) : ¬ Open (s.advance i new) := by
  intro h
  have hcall : (s.advance i new).calls[i]? = some ⟨request, .empty, new⟩ := by
    simp [getElem?_advance, hi]
  rcases (h i _ hcall rfl hnew).2 with he | he
  · exact hends.1 he
  · exact hends.2 he

/-- A call that ends before anything has come for it leaves its entry behind. -/
theorem not_open_of_not_kept (hk : ¬ s.Kept act) (hs : s.step act = some t) : ¬ Open t := by
  cases act with
  | sent i outcome =>
      cases outcome with
      | ok => exact absurd trivial hk
      | error e =>
          simp only [Kept, not_forall, not_not] at hk
          obtain ⟨⟨request, channel, progress⟩, hi, rfl⟩ := hk
          simp only [RpcService.step, hi] at hs
          split at hs
          · rename_i heq
            cases heq
          · cases hs
            exact not_open_advance hi (by simp) (by simp)
          · cases hs
  | drop i =>
      simp only [Kept, not_forall, not_not] at hk
      obtain ⟨⟨request, channel, progress⟩, hi, rfl⟩ := hk
      simp only [RpcService.step, hi] at hs
      split at hs
      · cases hs
        exact not_open_advance hi (by simp) (by simp)
      · cases hs
        exact not_open_advance hi (by simp) (by simp)
      · cases hs
  | _ => exact absurd trivial hk

/-- The table is exact as long as the calls it names are open. -/
theorem exact_iff_open (hwf : Wf s) (hreg : Registered s) : s.Exact ↔ s.Open := by
  constructor
  · intro h i c hi hc hp
    have hl := hreg i c hi hc hp
    obtain ⟨j, d, hj, hid, hw⟩ := (h c.request.requestId).mp (AList.lookup_isSome.mp (by rw [hl]; rfl))
    have hl' := hreg j d hj hw.1 hw.ne_reserved
    rw [hid, hl] at hl'
    cases hl'
    rw [hi] at hj
    cases hj
    exact hw
  · intro h id
    constructor
    · intro hmem
      obtain ⟨i, hl⟩ := Option.isSome_iff_exists.mp (AList.lookup_isSome.mpr hmem)
      obtain ⟨c, hi, hid, hc, hp⟩ := hwf.pending id i hl
      exact ⟨i, c, hi, hid, h i c hi hc hp⟩
    · rintro ⟨i, c, hi, rfl, hw⟩
      exact AList.lookup_isSome.mp (by rw [hreg i c hi hw.1 hw.ne_reserved]; rfl)

end RpcService

end OmniMesh.Service
