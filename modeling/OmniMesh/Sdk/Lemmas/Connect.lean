import OmniMesh.Sdk.Connect

/-!
# Where `connect_peer` ends up
-/

namespace OmniMesh.Sdk
open OmniMesh.Core OmniMesh.Crypto

namespace Caller

variable {self : Caller} {sessions : Sessions} {dial : Dial} {addrs : List Dial} {peer q : PeerId} {j : ℕ}

/-! ## One address -/

theorem Completes.not_fails (h : self.Completes dial peer) : ¬ self.Fails dial := by
  obtain ⟨script, transport, rfl, hs⟩ := h
  rintro (⟨e, he⟩ | ⟨script', e, hd, hs'⟩)
  · cases he
  · cases hd
    cases hs.symm.trans hs'

theorem Completes.unique (h : self.Completes dial peer) (h' : self.Completes dial q) : peer = q := by
  obtain ⟨script, transport, rfl, hs⟩ := h
  obtain ⟨script', transport', hd, hs'⟩ := h'
  cases hd
  cases hs.symm.trans hs'
  rfl

/-- A call for one address never returns, fails, or inserts the session of the peer it has reached. -/
theorem connectAddr_cases (self : Caller) (sessions : Sessions) (dial : Dial) :
    (self.connectAddr sessions dial = (none, sessions) ∧ ¬ self.Fails dial ∧
      ∀ peer, ¬ self.Completes dial peer) ∨
    (∃ e, self.connectAddr sessions dial = (some (.error e), sessions) ∧ self.Fails dial) ∨
    ∃ peer transport, self.Completes dial peer ∧
      self.connectAddr sessions dial = (some (.ok peer), sessions.insert peer transport) := by
  match dial with
  | none => exact .inl ⟨rfl, by simp [Fails], by simp [Completes]⟩
  | some (.error e) => exact .inr (.inl ⟨e, rfl, .inl ⟨e, rfl⟩⟩)
  | some (.ok script) =>
      cases hs : self.shake script with
      | none => exact .inl ⟨by simp [connectAddr, hs], by simp [Fails, hs], by simp [Completes, hs]⟩
      | some result =>
          cases result with
          | error e => exact .inr (.inl ⟨e, by simp [connectAddr, hs], .inr ⟨script, e, rfl, hs⟩⟩)
          | ok out =>
              exact .inr (.inr ⟨out.2, out.1, ⟨script, out.1, rfl, hs⟩, by simp [connectAddr, hs]⟩)

/-! ## The loop -/

theorem stopsAt_cons_zero : self.StopsAt (dial :: addrs) 0 peer ↔ self.Completes dial peer := by
  simp [StopsAt]

theorem stopsAt_cons_succ : self.StopsAt (dial :: addrs) (j + 1) peer ↔
    self.Fails dial ∧ self.StopsAt addrs j peer := by
  constructor
  · rintro ⟨hstop, hearlier⟩
    refine ⟨by simpa using hearlier 0 j.succ_pos, hstop, fun i hi => ?_⟩
    exact hearlier (i + 1) (Nat.succ_lt_succ hi)
  · rintro ⟨hfails, hstop, hearlier⟩
    refine ⟨hstop, fun i hi => ?_⟩
    cases i with
    | zero => exact ⟨dial, rfl, hfails⟩
    | succ i => exact hearlier i (Nat.lt_of_succ_lt_succ hi)

theorem StopsAt.unique {i : ℕ} (h : self.StopsAt addrs i peer) (h' : self.StopsAt addrs j q) :
    peer = q := by
  induction addrs generalizing i j with
  | nil =>
      obtain ⟨⟨dial, hd, -⟩, -⟩ := h
      cases hd
  | cons dial addrs ih =>
      cases i with
      | zero =>
          have hcompletes := stopsAt_cons_zero.mp h
          cases j with
          | zero => exact hcompletes.unique (stopsAt_cons_zero.mp h')
          | succ j => exact absurd (stopsAt_cons_succ.mp h').1 hcompletes.not_fails
      | succ i =>
          obtain ⟨hfails, hrest⟩ := stopsAt_cons_succ.mp h
          cases j with
          | zero => exact absurd hfails (stopsAt_cons_zero.mp h').not_fails
          | succ j => exact ih hrest (stopsAt_cons_succ.mp h').2

/-- The loop returns `Ok` at the first address that does not fail, with the session of whoever answered
there, and otherwise leaves the sessions as they were. -/
theorem connectLoop_cases (self : Caller) (sessions : Sessions) (lastErr : Option OmniMeshError)
    (addrs : List Dial) :
    (∃ j q transport, self.StopsAt addrs j q ∧
      self.connectLoop sessions lastErr addrs = (some (.ok ()), sessions.insert q transport)) ∨
    ((self.connectLoop sessions lastErr addrs).1 ≠ some (.ok ()) ∧
      ∀ j q, ¬ self.StopsAt addrs j q) := by
  induction addrs generalizing lastErr with
  | nil =>
      refine .inr ⟨?_, fun j q h => ?_⟩
      · simp [connectLoop]
      · obtain ⟨⟨dial, hd, -⟩, -⟩ := h
        cases hd
  | cons dial addrs ih =>
      rcases connectAddr_cases self sessions dial with ⟨he, hfails, hnone⟩ | ⟨e, he, hfails⟩ | ⟨q, tr, hq, he⟩
      · refine .inr ⟨by simp [connectLoop, he], fun j q h => ?_⟩
        cases j with
        | zero => exact hnone q (stopsAt_cons_zero.mp h)
        | succ j => exact hfails (stopsAt_cons_succ.mp h).1
      · have hloop : self.connectLoop sessions lastErr (dial :: addrs) =
            self.connectLoop sessions (some e) addrs := by simp [connectLoop, he]
        rw [hloop]
        rcases ih (some e) with ⟨j, q, tr, hstop, hr⟩ | ⟨hr, hnone⟩
        · exact .inl ⟨j + 1, q, tr, stopsAt_cons_succ.mpr ⟨hfails, hstop⟩, hr⟩
        · refine .inr ⟨hr, fun j q h => ?_⟩
          cases j with
          | zero => exact (stopsAt_cons_zero.mp h).not_fails hfails
          | succ j => exact hnone j q (stopsAt_cons_succ.mp h).2
      · exact .inl ⟨0, q, tr, stopsAt_cons_zero.mpr hq, by simp [connectLoop, he]⟩

/-! ## The whole call -/

theorem connectPeer_of_not_mem (hs : peer ∉ sessions) :
    (∃ j q transport, self.StopsAt addrs j q ∧
      self.connectPeer sessions peer addrs = (some (.ok ()), sessions.insert q transport)) ∨
    ((self.connectPeer sessions peer addrs).1 ≠ some (.ok ()) ∧ ∀ j q, ¬ self.StopsAt addrs j q) := by
  cases addrs with
  | nil =>
      refine .inr ⟨by simp [connectPeer, hs], fun j q h => ?_⟩
      obtain ⟨⟨dial, hd, -⟩, -⟩ := h
      cases hd
  | cons dial addrs =>
      have hloop : self.connectPeer sessions peer (dial :: addrs) =
          self.connectLoop sessions none (dial :: addrs) := by simp [connectPeer, hs]
      rw [hloop]
      exact connectLoop_cases self sessions none (dial :: addrs)

end Caller

end OmniMesh.Sdk
