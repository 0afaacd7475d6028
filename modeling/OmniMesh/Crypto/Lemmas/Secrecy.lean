import OmniMesh.Crypto.Lemmas.Channel
import OmniMesh.Crypto.Secrecy

/-!
# Where on its chain each key stands
-/

namespace OmniMesh.Crypto
open OmniMesh.Core

variable {C : ChaCha20Poly1305} {H : Hkdf} {base : Role → Key} {secret : Key} {s t u : Pair} {as : List PairAct}

theorem chainKey_add (H : Hkdf) (k : Key) (a b : ℕ) : chainKey H (chainKey H k a) b = chainKey H k (a + b) := by
  induction b with
  | zero => rfl
  | succ b ih => rw [chainKey, ih, Nat.add_succ, chainKey]

namespace Pair

theorem DistinctBelow.distinctKeys {bound : ℕ} (h : DistinctBelow H bound base) (hle : rekeyThreshold ≤ bound) :
    DistinctKeys H base :=
  fun r r' i j hi hj => h r r' i j (by omega) (by omega)

/-- A run against any network keeps the two chains in step, as long as nothing is forged. -/
theorem run_sync (hsync : Sync C H base s) (hkeys : DistinctKeys H base)
    (hideal : Lts.Meets (step C H) (NoForgery C) s as) (hrun : Lts.run (step C H) s as = some t) :
    Sync C H base t := by
  refine Lts.Meets.invariant ?_ hsync hideal hrun
  intro u a v hu hf hv
  cases a with
  | encrypt r n p => exact hu.encrypt hv
  | decrypt r data => exact hu.decrypt (fun p ht hp => hu.next_of_noForgery hkeys hf ht hp) hv

theorem Sync.sealed_le (h : Sync C H base s) (r : Role) : (s.sealed r).length ≤ rekeyThreshold := (h r).sealed_le

theorem Sync.got_le (h : Sync C H base s) (r : Role) : (s.got r).length ≤ rekeyThreshold := by
  obtain ⟨f, hs, hg⟩ := (h r.other).fifo
  have hlen := f.inOrder.length_le
  rw [hs, hg] at hlen
  have hsealed := h.sealed_le r.other
  simp only [direction, Direction.sent, List.length_map, Role.other_other] at hlen
  omega

/-- No step of either end disturbs the sending half of a direction: a `decrypt` leaves it alone. -/
theorem step_sends {a : PairAct} {r : Role} (h : (s.direction r).Sends) (hs : step C H s a = some t) :
    (t.direction r).Sends := by
  cases a with
  | encrypt r' n p =>
      obtain ⟨hother, hown⟩ := step_encrypt hs
      rcases Role.eq_or_eq_other r' r with rfl | rfl
      · rcases hown with ⟨hd, hcase⟩ | ⟨ht, c, _, hd⟩
        · rw [hd]; exact h.offer hcase
        · rw [hd]; exact h.sealNext ht
      · rw [hother]; exact h
  | decrypt r' data =>
      rcases step_decrypt hs with ⟨rfl, _⟩ | ⟨hown, _, p, _, hd⟩
      · exact h
      · rcases Role.eq_or_eq_other r' r with rfl | rfl
        · rw [hown]; exact h
        · rw [hd]; exact h.deliver

theorem run_sends {r : Role} (h : (s.direction r).Sends) (hrun : Lts.run (step C H) s as = some t) :
    (t.direction r).Sends :=
  Lts.run_invariant (I := fun t => (t.direction r).Sends) (fun _ _ _ hu hs => step_sends hu hs) h hrun

theorem step_offered {a : PairAct} (hs : step C H s a = some t) (r : Role) : s.offered r <+: t.offered r := by
  cases a with
  | encrypt r' n p =>
      have hoff : t.offered =
          if p.length ≤ C.maxLen then Function.update s.offered r' (s.offered r' ++ [p]) else s.offered := by
        simp only [step] at hs
        split at hs <;> · cases hs; rfl
      rw [hoff]
      split
      · by_cases hr : r = r'
        · subst hr
          simp
        · simp [hr]
      · exact List.prefix_refl _
  | decrypt r' data =>
      simp only [step] at hs
      split at hs <;> · cases hs; exact List.prefix_refl _

theorem run_offered (hrun : Lts.run (step C H) s as = some t) (r : Role) : s.offered r <+: t.offered r :=
  Lts.run_invariant (I := fun t => s.offered r <+: t.offered r)
    (fun _ _ _ hu hs => hu.trans (step_offered hs r)) (List.prefix_refl _) hrun

/-- The keys that the memory of an end discloses are those of its two chains from their current places on. -/
theorem Sync.discloses_iff {n : ℕ} {k : Key} (h : Sync C H base s) (r : Role) :
    (s.chan r).Discloses H n k ↔
      ∃ m, m ≤ n ∧ (k = chainKey H (base r) ((s.sealed r).length + m) ∨
        k = chainKey H (base r.other) ((s.got r).length + m)) := by
  have hsend : (s.chan r).sendKey = chainKey H (base r) (s.sealed r).length := (h r).sendKey
  have hrecv : (s.chan r).recvKey = chainKey H (base r.other) (s.got r).length := by
    simpa [direction] using (h r.other).recvKey
  simp only [SecureChannel.Discloses, hsend, hrecv, chainKey_add]

end Pair

end OmniMesh.Crypto
