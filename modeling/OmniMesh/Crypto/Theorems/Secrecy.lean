import OmniMesh.Crypto.Lemmas.Concrete
import OmniMesh.Crypto.Lemmas.Secrecy

/-!
# What the ratcheting channel keeps secret
-/

namespace OmniMesh.Crypto
open OmniMesh.Core

variable {C : ChaCha20Poly1305} {H : Hkdf} {secret : Key} {s t u : Pair} {as more : List PairAct}

/-- Whoever reads the memory of an end at some time has the keys of exactly those messages that this end
sends or receives after that time. What was sent or received before stays secret; a message on its way to the end
does not, and no later message does. -/
theorem secureChannel_forward_secrecy (hinit : Pair.init H secret = .ok s) {n : ℕ} (hn : rekeyThreshold ≤ n)
    (hkeys : Pair.DistinctBelow H (rekeyThreshold + n + 1) fun r => (s.chan r).sendKey)
    (hideal : Lts.Meets (Pair.step C H) (Pair.NoForgery C) s as)
    (hrun : Lts.run (Pair.step C H) s as = some t)
    (hideal' : Lts.Meets (Pair.step C H) (Pair.NoForgery C) t more)
    (hmore : Lts.run (Pair.step C H) t more = some u)
    {r r' : Role} {i : ℕ} {e : Sealed} (he : (u.sealed r')[i]? = some e) :
    Aead.decrypt C e.key e.data = .ok e.plaintext ∧
    ((t.chan r).Discloses H n e.key ↔ (if r' = r then t.sent r else t.got r).length ≤ i) := by
  have hdistinct := hkeys.distinctKeys (by omega)
  have ht := Pair.run_sync (Pair.init_sync hinit) hdistinct hideal hrun
  have hu := Pair.run_sync ht hdistinct hideal' hmore
  obtain ⟨hkey, hopens⟩ := (hu r').sealedKey i e he
  refine ⟨hopens, ?_⟩
  have hi : i < rekeyThreshold :=
    Nat.lt_of_lt_of_le (List.getElem?_eq_some_iff.mp he).1 (hu.sealed_le r')
  have hsealed := ht.sealed_le r
  have hgot := ht.got_le r
  rw [ht.discloses_iff, hkey]
  constructor
  · rintro ⟨m, hm, heq | heq⟩
    · obtain ⟨rfl, rfl⟩ := hkeys _ _ _ _ (by omega) (by omega) heq
      simp [Pair.sent]
    · obtain ⟨rfl, rfl⟩ := hkeys _ _ _ _ (by omega) (by omega) heq
      simp [Role.other_ne]
  · intro hle
    obtain rfl | rfl := Role.eq_or_eq_other r r'
    · simp only [if_true, Pair.sent, List.length_map] at hle
      exact ⟨i - (t.sealed r').length, by omega, .inl (by rw [Nat.add_sub_cancel' hle])⟩
    · simp only [Role.other_ne, if_false] at hle
      exact ⟨i - (t.got r).length, by omega, .inr (by rw [Nat.add_sub_cancel' hle])⟩

theorem counterPair_distinctBelow {bound : ℕ} (hbound : bound ≤ 2 ^ 24) :
    Pair.DistinctBelow counterHkdf bound fun r => (counterPair.chan r).sendKey := by
  have key : ∀ r n, n < 2 ^ 24 → chainKey counterHkdf ((counterPair.chan r).sendKey) n =
      counterKey (if r = .initiator then 0 else 1) n := by
    intro r n hn
    cases r <;> exact chainKey_counterKey (by decide) n hn
  intro r r' i j hi hj h
  rw [key r i (by omega), key r' j (by omega)] at h
  obtain ⟨htag, hij⟩ := counterKey_inj (by split <;> decide) (by split <;> decide) (by omega) (by omega) h
  refine ⟨?_, hij⟩
  cases r <;> cases r' <;> simp_all

/-- A message is sent and received before the responder's memory is read, and one is sent after that. -/
def disclosedRun : List PairAct × List PairAct :=
  ([.encrypt .initiator someNonce [104, 105], .decrypt .responder (firstData [104, 105])],
    [.encrypt .initiator someNonce [106]])

theorem secureChannel_forward_secrecy_disclosed :
    ∃ t u e e', Lts.run (Pair.step tagCipher counterHkdf) counterPair disclosedRun.1 = some t ∧
      Lts.run (Pair.step tagCipher counterHkdf) t disclosedRun.2 = some u ∧ u.sealed .initiator = [e, e'] ∧
      ¬ (t.chan .responder).Discloses counterHkdf rekeyThreshold e.key ∧
      (t.chan .responder).Discloses counterHkdf rekeyThreshold e'.key := by
  have hideal : Lts.Meets (Pair.step tagCipher counterHkdf) (Pair.NoForgery tagCipher) counterPair
      disclosedRun.1 := by
    refine .cons trivial rfl (.cons ?_ rfl trivial)
    intro p hp
    have : p = [104, 105] := Except.ok.inj (hp.symm.trans rfl)
    subst this
    exact ⟨.initiator, List.mem_cons_self⟩
  have hrun : ∃ t u e e', Lts.run (Pair.step tagCipher counterHkdf) counterPair disclosedRun.1 = some t ∧
      Lts.run (Pair.step tagCipher counterHkdf) t disclosedRun.2 = some u ∧ u.sealed .initiator = [e, e'] ∧
      t.got .responder = [[104, 105]] := ⟨_, _, _, _, rfl, rfl, rfl, rfl⟩
  obtain ⟨t, u, e, e', ht, hu, hsealed, hgot⟩ := hrun
  have hideal' : Lts.Meets (Pair.step tagCipher counterHkdf) (Pair.NoForgery tagCipher) t disclosedRun.2 :=
    ⟨trivial, fun _ _ => trivial⟩
  have hkeys := counterPair_distinctBelow (show rekeyThreshold + rekeyThreshold + 1 ≤ 2 ^ 24 by decide)
  have hkey : ∀ {i e}, (u.sealed .initiator)[i]? = some e →
      ((t.chan .responder).Discloses counterHkdf rekeyThreshold e.key ↔ (t.got .responder).length ≤ i) :=
    fun he => (secureChannel_forward_secrecy init_counterPair le_rfl hkeys hideal ht hideal' hu he).2
  refine ⟨t, u, e, e', ht, hu, hsealed, ?_, ?_⟩
  · rw [hkey (i := 0) (by rw [hsealed]; rfl), hgot]
    decide
  · rw [hkey (i := 1) (by rw [hsealed]; rfl), hgot]
    decide

/-- As many more messages as `messages_remaining` says are accepted and sealed, whatever else happens to
the two channels in between. -/
theorem messagesRemaining_is_kept (hinit : Pair.init H secret = .ok s)
    (hrun : Lts.run (Pair.step C H) s as = some t) (hmore : Lts.run (Pair.step C H) t more = some u) (r : Role)
    (hcount : (u.offered r).length ≤ (t.offered r).length + (t.chan r).messagesRemaining) :
    u.sent r = t.sent r ++ (u.offered r).drop (t.offered r).length := by
  have ht := Pair.run_sends (Pair.init_sync (C := C) hinit r).toSends hrun
  have hu := Pair.run_sends ht hmore
  have hsent : t.sent r = (t.offered r).take rekeyThreshold := ht.offered
  have hsent' : u.sent r = (u.offered r).take rekeyThreshold := hu.offered
  have hcounter : (t.chan r).sendCounter = min rekeyThreshold (t.offered r).length :=
    ht.sendCounter.trans ht.sealed_length
  obtain ⟨new, hnew⟩ := Pair.run_offered hmore r
  rw [SecureChannel.messagesRemaining, hcounter, ← hnew, List.length_append] at hcount
  rw [hsent, hsent', ← hnew, List.drop_left]
  obtain hlt | hle := Nat.lt_or_ge rekeyThreshold (t.offered r).length
  · have hnil : new = [] := List.length_eq_zero_iff.mp (by omega)
    rw [hnil, List.append_nil, List.append_nil]
  · have hall : (t.offered r ++ new).length ≤ rekeyThreshold := by
      rw [List.length_append]
      omega
    rw [List.take_of_length_le hle, List.take_of_length_le hall]

/-- Between the two messages that the initiator sends, the responder is given the first one again and a
byte string of the network's own, and the initiator one that the responder never sealed. -/
def disturbedRun : List PairAct :=
  [.encrypt .initiator someNonce [106], .decrypt .responder (firstData [104, 105]), .decrypt .responder [1, 2, 3],
    .decrypt .initiator (someNonce.toList ++ (counterKey 1 0).toList.take 16),
    .encrypt .initiator someNonce [107]]

theorem messagesRemaining_is_kept_disturbed :
    ∃ t u, Lts.run (Pair.step tagCipher counterHkdf) counterPair disclosedRun.1 = some t ∧
      (t.chan .initiator).messagesRemaining = 999999 ∧
      Lts.run (Pair.step tagCipher counterHkdf) t disturbedRun = some u ∧ u.got .initiator = [[]] ∧
      u.sent .responder = [] ∧ u.sent .initiator = [[104, 105], [106], [107]] := by
  have hrun : ∃ t u, Lts.run (Pair.step tagCipher counterHkdf) counterPair disclosedRun.1 = some t ∧
      Lts.run (Pair.step tagCipher counterHkdf) t disturbedRun = some u ∧
      t.offered .initiator = [[104, 105]] ∧ t.sent .initiator = [[104, 105]] ∧
      (t.chan .initiator).messagesRemaining = 999999 ∧ u.offered .initiator = [[104, 105], [106], [107]] ∧
      u.got .initiator = [[]] ∧ u.sent .responder = [] := ⟨_, _, rfl, rfl, rfl, rfl, rfl, rfl, rfl, rfl⟩
  obtain ⟨t, u, ht, hu, hoffered, hsent, hleft, hoffered', hgot, hnone⟩ := hrun
  have hkept := messagesRemaining_is_kept init_counterPair ht hu .initiator
    (by rw [hoffered, hoffered', hleft]; decide)
  exact ⟨t, u, ht, hleft, hu, hgot, hnone, by rw [hkept, hsent, hoffered, hoffered']; rfl⟩

end OmniMesh.Crypto
