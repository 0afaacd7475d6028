import OmniMesh.Crypto.Lemmas.Channel
import OmniMesh.Crypto.Lemmas.Concrete

/-!
# What the ratcheting channel guarantees

Two channels of one shared secret, run against a network that may do anything, and run against a
network that keeps the order.
-/

namespace OmniMesh.Crypto
open OmniMesh.Core

variable {C : ChaCha20Poly1305} {H : Hkdf} {secret : Key} {s t : Pair} {as : List PairAct}

/-! ## Integrity against any network -/

/-- Whatever the network feeds the two ends, an end has received a prefix of what the other end sent. -/
theorem secureChannel_integrity (hinit : Pair.init H secret = .ok s)
    (hkeys : Pair.DistinctKeys H fun r => (s.chan r).sendKey)
    (hideal : Lts.Meets (Pair.step C H) (Pair.NoForgery C) s as)
    (hrun : Lts.run (Pair.step C H) s as = some t) (r : Role) :
    t.got r <+: t.sent r.other := by
  have hsync : Pair.Sync C H (fun r => (s.chan r).sendKey) t := by
    refine Lts.Meets.invariant ?_ (Pair.init_sync hinit) hideal hrun
    intro u a v hu hf hv
    cases a with
    | encrypt r n p => exact hu.encrypt hv
    | decrypt r data =>
        exact hu.decrypt (fun p ht hp => hu.next_of_noForgery hkeys hf ht hp) hv
  obtain ⟨f, hs, hg⟩ := (hsync r.other).fifo
  have hpre := f.inOrder
  rw [hs, hg] at hpre
  simpa [Pair.direction, Direction.sent, Pair.sent] using hpre

def chainTag : Role → Nat
  | .initiator => 0
  | .responder => 1

theorem counterPair_distinctKeys :
    Pair.DistinctKeys counterHkdf fun r => (counterPair.chan r).sendKey := by
  intro r r' i j hi hj h
  simp only [rekeyThreshold] at hi hj
  have key : ∀ r n, n < 2 ^ 24 → chainKey counterHkdf ((counterPair.chan r).sendKey) n =
      counterKey (chainTag r) n := by
    intro r n hn
    cases r
    · exact chainKey_counterKey (by decide) n hn
    · exact chainKey_counterKey (by decide) n hn
  rw [key r i (by omega), key r' j (by omega)] at h
  obtain ⟨htag, hij⟩ := counterKey_inj (by cases r <;> decide) (by cases r' <;> decide)
    (by omega) (by omega) h
  refine ⟨?_, hij⟩
  cases r <;> cases r' <;> simp_all [chainTag]

/-- One message is sent, delivered, replayed to its receiver and reflected to its sender. -/
def replayRun : List PairAct :=
  [.encrypt .initiator someNonce [104, 105], .decrypt .responder (firstData [104, 105]),
    .decrypt .responder (firstData [104, 105]), .decrypt .initiator (firstData [104, 105])]

theorem secureChannel_integrity_replay :
    ∃ t, Lts.run (Pair.step tagCipher counterHkdf) counterPair replayRun = some t ∧
      t.got .responder = [[104, 105]] ∧ t.got .responder <+: t.sent .initiator := by
  have hideal : Lts.Meets (Pair.step tagCipher counterHkdf) (Pair.NoForgery tagCipher) counterPair
      replayRun := by
    refine .cons trivial rfl (.cons ?_ rfl (.cons ?_ rfl (.cons ?_ rfl trivial)))
    · intro p hp
      have : p = [104, 105] := Except.ok.inj (hp.symm.trans rfl)
      subst this
      exact ⟨.initiator, List.mem_cons_self⟩
    · intro p hp
      cases hp.symm.trans (show _ = Except.error _ from rfl)
    · intro p hp
      cases hp.symm.trans (show _ = Except.error _ from rfl)
  exact ⟨_, rfl, rfl,
    secureChannel_integrity init_counterPair counterPair_distinctKeys hideal rfl .responder⟩

/-! ## Delivery and failure on a network that keeps the order -/

/-- What holds of one direction, from the end `r` to the other end, at any time of such a run. -/
structure Delivery (C : ChaCha20Poly1305) (H : Hkdf) (t : Pair) (r : Role) : Prop where
  /-- The first 1,000,000 messages offered are sealed, and no others. -/
  sealed : t.sent r = (t.offered r).take 1000000
  got : t.got r.other <+: t.sent r
  opens : ∀ e, (t.sealed r)[(t.got r.other).length]? = some e →
    ((t.chan r.other).decrypt C H e.data).1 = .ok e.plaintext
  rejected : ∀ data e, Aead.decrypt C (t.chan r.other).recvKey data = .error e →
    ∃ e', (t.chan r.other).decrypt C H data = (.error e', t.chan r.other)
  /-- After 1,000,000 messages sending fails and changes nothing. -/
  sendExhausted : 1000000 ≤ (t.offered r).length → ∀ n p, (t.chan r).encrypt C H n p =
    (.error (.crypto "send key exhausted — rekeying required"), t.chan r)
  /-- After 1,000,000 deliveries receiving fails and changes nothing. -/
  recvExhausted : 1000000 ≤ (t.got r.other).length → ∀ data, (t.chan r.other).decrypt C H data =
    (.error (.crypto "receive key exhausted — rekeying required"), t.chan r.other)
  unaffected : (∀ n p, ((t.chan r).encrypt C H n p).2.recvKey = (t.chan r).recvKey ∧
      ((t.chan r).encrypt C H n p).2.recvCounter = (t.chan r).recvCounter) ∧
    ∀ data, ((t.chan r.other).decrypt C H data).2.sendKey = (t.chan r.other).sendKey ∧
      ((t.chan r.other).decrypt C H data).2.sendCounter = (t.chan r.other).sendCounter

theorem Direction.Sync.delivery {k r} (h : (t.direction r).Sync C H k) : Delivery C H t r := by
  have hlen := h.sealed_length
  simp only [Pair.direction] at hlen
  refine ⟨h.offered, ?_, ?_, ?_, ?_, ?_, ?_⟩
  · obtain ⟨f, hs, hg⟩ := h.fifo
    have hpre := f.inOrder
    rw [hs, hg] at hpre
    exact hpre
  · intro e he
    have hopen := h.next_opens he
    have hlt : (t.chan r.other).recvCounter < rekeyThreshold := by
      have h1 := (List.getElem?_eq_some_iff.mp he).1
      have h2 := h.recvCounter
      have h3 := h.sealed_le
      simp only [Pair.direction] at h2 h3
      omega
    rcases SecureChannel.decrypt_cases C H (t.chan r.other) e.data with
      ⟨ht, _⟩ | ⟨_, e', he', _⟩ | ⟨_, p, hp, hd⟩
    · omega
    · exact absurd (hopen.symm.trans he') (by simp)
    · rw [hd]
      exact hp.symm.trans hopen
  · intro data e he
    exact SecureChannel.decrypt_rejected he
  · intro hoff n p
    rcases SecureChannel.encrypt_cases C H (t.chan r) n p with ⟨_, he⟩ | ⟨hlt, _⟩ | ⟨hlt, _⟩
    · exact he
    all_goals
      have hc := h.sendCounter
      simp only [Pair.direction] at hc
      simp only [rekeyThreshold] at hlen hlt
      omega
  · intro hgot data
    rcases SecureChannel.decrypt_cases C H (t.chan r.other) data with ⟨_, hd⟩ | ⟨hlt, _⟩ | ⟨hlt, _⟩
    · exact hd
    all_goals
      have hc := h.recvCounter
      simp only [Pair.direction] at hc
      simp only [rekeyThreshold] at hlt
      omega
  · exact ⟨fun n p => SecureChannel.encrypt_recv _ n p, fun data => SecureChannel.decrypt_send _ data⟩

/-- On a network that gives each end the other end's ciphertexts in order, mixed with byte strings that
the cipher rejects, both directions deliver. -/
theorem secureChannel_delivery (hinit : Pair.init H secret = .ok s)
    (hnet : Lts.Meets (Pair.step C H) (Pair.Benign C) s as)
    (hrun : Lts.run (Pair.step C H) s as = some t) (r : Role) : Delivery C H t r := by
  have hsync : Pair.Sync C H (fun r => (s.chan r).sendKey) t := by
    refine Lts.Meets.invariant ?_ (Pair.init_sync hinit) hnet hrun
    intro u a v hu hb hv
    cases a with
    | encrypt r n p => exact hu.encrypt hv
    | decrypt r data => exact hu.decrypt (fun p _ hp => hu.next_of_benign hb hp) hv
  exact (hsync r).delivery

/-- A message is delivered after a byte string that is too short to be a ciphertext. -/
def noisyRun : List PairAct :=
  [.encrypt .initiator someNonce [104, 105], .decrypt .responder [1, 2, 3],
    .decrypt .responder (firstData [104, 105])]

theorem secureChannel_delivery_noisy :
    ∃ t, Lts.run (Pair.step tagCipher counterHkdf) counterPair noisyRun = some t ∧
      t.got .responder = [[104, 105]] ∧ Delivery tagCipher counterHkdf t .initiator := by
  have hnet : Lts.Meets (Pair.step tagCipher counterHkdf) (Pair.Benign tagCipher) counterPair
      noisyRun := by
    refine .cons trivial rfl (.cons ?_ rfl (.cons ?_ rfl trivial))
    · exact Or.inr ⟨_, rfl⟩
    · exact Or.inl rfl
  exact ⟨_, rfl, rfl, secureChannel_delivery init_counterPair hnet rfl .initiator⟩

end OmniMesh.Crypto
