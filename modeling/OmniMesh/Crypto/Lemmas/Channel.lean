import OmniMesh.Crypto.Channel
import OmniMesh.Lib.Fifo

/-!
# The synchrony of two ratchet chains
-/

namespace OmniMesh.Crypto
open OmniMesh.Core

variable {C : ChaCha20Poly1305} {H : Hkdf}

/-! ## One channel -/

namespace SecureChannel

/-- The three ways `encrypt` ends: the key is exhausted, the cipher refuses, or the key moves on. -/
theorem encrypt_cases (C : ChaCha20Poly1305) (H : Hkdf) (ch : SecureChannel) (n : Nonce) (p : Bytes) :
    (rekeyThreshold ≤ ch.sendCounter ∧
      ch.encrypt C H n p = (.error (.crypto "send key exhausted — rekeying required"), ch)) ∨
    (ch.sendCounter < rekeyThreshold ∧ C.maxLen < p.length ∧
      ∃ e, ch.encrypt C H n p = (.error e, ch)) ∨
    (ch.sendCounter < rekeyThreshold ∧ p.length ≤ C.maxLen ∧
      ∃ c, Aead.encrypt C ch.sendKey n p = .ok c ∧ ch.encrypt C H n p =
        (.ok c, { ch with sendKey := nextKey H ch.sendKey, sendCounter := ch.sendCounter + 1 })) := by
  by_cases ht : rekeyThreshold ≤ ch.sendCounter
  · exact Or.inl ⟨ht, by rw [encrypt, if_pos ht]⟩
  · right
    have hlt : ch.sendCounter < rekeyThreshold := by omega
    by_cases hp : p.length ≤ C.maxLen
    · obtain ⟨c, hc⟩ := Aead.encrypt_ok (k := ch.sendKey) (n := n) hp
      refine Or.inr ⟨hlt, hp, c, hc, ?_⟩
      rw [encrypt, if_neg ht, hc]
      simp only [ratchetKey_eq]
    · have hp' : C.maxLen < p.length := by omega
      obtain ⟨e, he⟩ := Aead.encrypt_error (k := ch.sendKey) (n := n) hp'
      exact Or.inl ⟨hlt, hp', e, by rw [encrypt, if_neg ht, he]⟩

theorem decrypt_cases (C : ChaCha20Poly1305) (H : Hkdf) (ch : SecureChannel) (data : Bytes) :
    (rekeyThreshold ≤ ch.recvCounter ∧
      ch.decrypt C H data = (.error (.crypto "receive key exhausted — rekeying required"), ch)) ∨
    (ch.recvCounter < rekeyThreshold ∧
      ∃ e, Aead.decrypt C ch.recvKey data = .error e ∧ ch.decrypt C H data = (.error e, ch)) ∨
    (ch.recvCounter < rekeyThreshold ∧
      ∃ p, Aead.decrypt C ch.recvKey data = .ok p ∧ ch.decrypt C H data =
        (.ok p, { ch with recvKey := nextKey H ch.recvKey, recvCounter := ch.recvCounter + 1 })) := by
  by_cases ht : rekeyThreshold ≤ ch.recvCounter
  · exact Or.inl ⟨ht, by rw [decrypt, if_pos ht]⟩
  · right
    have hlt : ch.recvCounter < rekeyThreshold := by omega
    cases hd : Aead.decrypt C ch.recvKey data with
    | error e => exact Or.inl ⟨hlt, e, rfl, by rw [decrypt, if_neg ht, hd]⟩
    | ok p =>
        refine Or.inr ⟨hlt, p, rfl, ?_⟩
        rw [decrypt, if_neg ht, hd]
        simp only [ratchetKey_eq]

/-- A byte string that `aead::decrypt` rejects leaves the whole channel as it was. -/
theorem decrypt_rejected {ch : SecureChannel} {data e} (h : Aead.decrypt C ch.recvKey data = .error e) :
    ∃ e', ch.decrypt C H data = (.error e', ch) := by
  rcases decrypt_cases C H ch data with ⟨_, hd⟩ | ⟨_, e', _, hd⟩ | ⟨_, p, hp, _⟩
  · exact ⟨_, hd⟩
  · exact ⟨_, hd⟩
  · rw [h] at hp; cases hp

theorem encrypt_recv (ch : SecureChannel) (n : Nonce) (p : Bytes) :
    (ch.encrypt C H n p).2.recvKey = ch.recvKey ∧
      (ch.encrypt C H n p).2.recvCounter = ch.recvCounter := by
  rcases encrypt_cases C H ch n p with ⟨_, h⟩ | ⟨_, _, e, h⟩ | ⟨_, _, c, _, h⟩ <;>
    rw [h] <;> exact ⟨rfl, rfl⟩

theorem decrypt_send (ch : SecureChannel) (data : Bytes) :
    (ch.decrypt C H data).2.sendKey = ch.sendKey ∧
      (ch.decrypt C H data).2.sendCounter = ch.sendCounter := by
  rcases decrypt_cases C H ch data with ⟨_, h⟩ | ⟨_, e, _, h⟩ | ⟨_, p, _, h⟩ <;>
    rw [h] <;> exact ⟨rfl, rfl⟩

end SecureChannel

/-! ## One direction of a pair -/

/-- Everything that belongs to the messages from one end to the other: the sending half of one channel,
the receiving half of the other, and the history. -/
structure Direction where
  sendKey : Key
  sendCounter : Nat
  recvKey : Key
  recvCounter : Nat
  offered : List Bytes
  sealed : List Sealed
  got : List Bytes

namespace Direction

def sent (d : Direction) : List Bytes := d.sealed.map Sealed.plaintext

def offer (C : ChaCha20Poly1305) (d : Direction) (p : Bytes) : Direction :=
  { d with offered := if p.length ≤ C.maxLen then d.offered ++ [p] else d.offered }

def sealNext (H : Hkdf) (d : Direction) (p c : Bytes) : Direction :=
  { d with
    sendKey := nextKey H d.sendKey
    sendCounter := d.sendCounter + 1
    offered := d.offered ++ [p]
    sealed := d.sealed ++ [⟨d.sendKey, p, c⟩] }

def deliver (H : Hkdf) (d : Direction) (p : Bytes) : Direction :=
  { d with
    recvKey := nextKey H d.recvKey
    recvCounter := d.recvCounter + 1
    got := d.got ++ [p] }

/-- What the sending half keeps by itself, whatever the receiving half is given: the counter counts the
sealed messages, and these are the first offers, up to the rekeying threshold. -/
structure Sends (d : Direction) : Prop where
  sendCounter : d.sendCounter = d.sealed.length
  offered : d.sent = d.offered.take rekeyThreshold

/-- The invariant of a direction. The sending chain stands at the number of sealed messages and the
receiving chain at the number of delivered ones; what was delivered and what was sealed are the two
ends of one fifo. -/
structure Sync (C : ChaCha20Poly1305) (H : Hkdf) (k : Key) (d : Direction) : Prop extends Sends d where
  sendKey : d.sendKey = chainKey H k d.sealed.length
  recvKey : d.recvKey = chainKey H k d.got.length
  recvCounter : d.recvCounter = d.got.length
  sealedKey : ∀ (i : Nat) e, d.sealed[i]? = some e →
    e.key = chainKey H k i ∧ Aead.decrypt C e.key e.data = .ok e.plaintext
  fifo : ∃ f : Fifo Bytes, f.sent = d.sent ∧ f.got = d.got

variable {k : Key} {d : Direction}

theorem Sends.sealed_length (h : Sends d) : d.sealed.length = min rekeyThreshold d.offered.length := by
  have := congrArg List.length h.offered
  simpa [sent] using this

theorem Sends.sealed_le (h : Sends d) : d.sealed.length ≤ rekeyThreshold := by
  rw [h.sealed_length]
  exact Nat.min_le_left _ _

theorem Sends.offer {p} (h : Sends d) (hcase : rekeyThreshold ≤ d.sendCounter ∨ C.maxLen < p.length) :
    Sends (d.offer C p) := by
  refine ⟨h.sendCounter, ?_⟩
  show d.sent = (d.offer C p).offered.take rekeyThreshold
  unfold Direction.offer
  by_cases hp : p.length ≤ C.maxLen
  · -- the offers that count are the first `rekeyThreshold`, and they were made before this one
    have hlen : rekeyThreshold ≤ d.offered.length := by
      have := h.sealed_length
      rcases hcase with ht | hp'
      · rw [h.sendCounter] at ht; omega
      · omega
    simp only [hp, if_true]
    rw [List.take_append_of_le_length hlen]
    exact h.offered
  · simp only [hp, if_false]
    exact h.offered

theorem Sends.sealNext {p c} (h : Sends d) (ht : d.sendCounter < rekeyThreshold) :
    Sends (d.sealNext H p c) := by
  have hoff : d.offered.length < rekeyThreshold := by
    have := h.sealed_length
    rw [h.sendCounter] at ht
    omega
  have hsent := h.offered
  refine ⟨by simp [Direction.sealNext, h.sendCounter], ?_⟩
  rw [List.take_of_length_le (by omega)] at hsent
  simp only [Direction.sent] at hsent
  simp only [Direction.sent, Direction.sealNext, List.map_append, List.map_cons, List.map_nil]
  rw [List.take_of_length_le (by simp; omega), hsent]

theorem Sends.deliver {p} (h : Sends d) : Sends (d.deliver H p) := ⟨h.sendCounter, h.offered⟩

theorem Sync.offer {p} (h : Sync C H k d) (hcase : rekeyThreshold ≤ d.sendCounter ∨ C.maxLen < p.length) :
    Sync C H k (d.offer C p) :=
  ⟨h.toSends.offer hcase, h.sendKey, h.recvKey, h.recvCounter, h.sealedKey, h.fifo⟩

theorem Sync.sealNext {n p c} (h : Sync C H k d) (ht : d.sendCounter < rekeyThreshold)
    (hc : Aead.encrypt C d.sendKey n p = .ok c) : Sync C H k (d.sealNext H p c) := by
  refine ⟨h.toSends.sealNext ht, ?_, h.recvKey, h.recvCounter, ?_, ?_⟩
  · simp [Direction.sealNext, chainKey, h.sendKey]
  · intro i e he
    simp only [Direction.sealNext] at he
    by_cases hi : i < d.sealed.length
    · rw [List.getElem?_append_left hi] at he
      exact h.sealedKey i e he
    · rw [List.getElem?_append_right (by omega)] at he
      obtain ⟨hi0, he'⟩ := List.getElem?_eq_some_iff.mp he
      have hi' : i = d.sealed.length := by simp at hi0; omega
      subst hi'
      simp only [Nat.sub_self, List.getElem_cons_zero] at he'
      subst he'
      exact ⟨h.sendKey, Aead.decrypt_encrypt hc⟩
  · obtain ⟨f, hs, hg⟩ := h.fifo
    refine ⟨f.send p, ?_, hg⟩
    simp only [Fifo.send, hs, Direction.sent, Direction.sealNext, List.map_append, List.map_cons,
      List.map_nil]

/-- The next message of the fifo is delivered, and the receiving chain moves on with it. -/
theorem Sync.deliver {p} (h : Sync C H k d) (hp : d.sent[d.got.length]? = some p) :
    Sync C H k (d.deliver H p) := by
  refine ⟨h.toSends.deliver, h.sendKey, ?_, ?_, h.sealedKey, ?_⟩
  · simp [Direction.deliver, chainKey, h.recvKey]
  · simp [Direction.deliver, h.recvCounter]
  · obtain ⟨f, hs, hg⟩ := h.fifo
    have hnext : f.next = some p := by rw [Fifo.next, hs, hg, hp]
    exact ⟨f.deliver p hnext, hs, by simp [Fifo.deliver, Direction.deliver, hg]⟩

theorem Sync.next_opens {e} (h : Sync C H k d) (he : d.sealed[d.got.length]? = some e) :
    Aead.decrypt C d.recvKey e.data = .ok e.plaintext := by
  obtain ⟨hk, hd⟩ := h.sealedKey _ _ he
  rw [h.recvKey, ← hk, hd]

end Direction

namespace Pair

def direction (s : Pair) (r : Role) : Direction where
  sendKey := (s.chan r).sendKey
  sendCounter := (s.chan r).sendCounter
  recvKey := (s.chan r.other).recvKey
  recvCounter := (s.chan r.other).recvCounter
  offered := s.offered r
  sealed := s.sealed r
  got := s.got r.other

/-! ## The steps of a pair -/

theorem step_encrypt {s t r n p} (h : step C H s (.encrypt r n p) = some t) :
    t.direction r.other = s.direction r.other ∧
    ((t.direction r = (s.direction r).offer C p ∧
        (rekeyThreshold ≤ (s.chan r).sendCounter ∨ C.maxLen < p.length)) ∨
      ((s.chan r).sendCounter < rekeyThreshold ∧
        ∃ c, Aead.encrypt C (s.chan r).sendKey n p = .ok c ∧
          t.direction r = (s.direction r).sealNext H p c)) := by
  have hne := Role.other_ne r
  rcases SecureChannel.encrypt_cases C H (s.chan r) n p with
    ⟨ht, he⟩ | ⟨_, hp, e, he⟩ | ⟨ht, hp, c, hc, he⟩
  · simp only [step, he, Function.update_eq_self, Option.some.injEq] at h
    subst h
    refine ⟨?_, Or.inl ⟨?_, Or.inl ht⟩⟩
    · unfold direction; split <;> simp
    · unfold direction Direction.offer; split <;> simp
  · simp only [step, he, Function.update_eq_self, Option.some.injEq] at h
    subst h
    refine ⟨?_, Or.inl ⟨?_, Or.inr hp⟩⟩
    · unfold direction; split <;> simp
    · unfold direction Direction.offer; split <;> simp
  · simp only [step, he, hp, if_true, Option.some.injEq] at h
    subst h
    refine ⟨?_, Or.inr ⟨ht, c, hc, ?_⟩⟩
    · simp [direction]
    · simp [direction, Direction.sealNext]

/-- A `decrypt` call acts on the direction from the other end only: it delivers one plaintext that the
cipher accepts, or changes nothing at all. -/
theorem step_decrypt {s t r data} (h : step C H s (.decrypt r data) = some t) :
    (t = s ∧ (rekeyThreshold ≤ (s.chan r).recvCounter ∨
      ∃ e, Aead.decrypt C (s.chan r).recvKey data = .error e)) ∨
    (t.direction r = s.direction r ∧ (s.chan r).recvCounter < rekeyThreshold ∧
      ∃ p, Aead.decrypt C (s.chan r).recvKey data = .ok p ∧
        t.direction r.other = (s.direction r.other).deliver H p) := by
  rcases SecureChannel.decrypt_cases C H (s.chan r) data with
    ⟨ht, hd⟩ | ⟨_, e, he, hd⟩ | ⟨ht, p, hp, hd⟩
  · simp only [step, hd, Function.update_eq_self, Option.some.injEq] at h
    exact Or.inl ⟨h.symm, Or.inl ht⟩
  · simp only [step, hd, Function.update_eq_self, Option.some.injEq] at h
    exact Or.inl ⟨h.symm, Or.inr ⟨e, he⟩⟩
  · simp only [step, hd, Option.some.injEq] at h
    subst h
    refine Or.inr ⟨?_, ht, p, hp, ?_⟩
    · simp [direction]
    · simp [direction, Direction.deliver]

/-! ## Synchrony along a run -/

def Sync (C : ChaCha20Poly1305) (H : Hkdf) (base : Role → Key) (s : Pair) : Prop :=
  ∀ r, (s.direction r).Sync C H (base r)

variable {base : Role → Key} {s t : Pair}

theorem Sync.encrypt {r n p} (hs : Sync C H base s) (h : step C H s (.encrypt r n p) = some t) :
    Sync C H base t := by
  obtain ⟨hother, hown⟩ := step_encrypt h
  intro r'
  rcases Role.eq_or_eq_other r r' with rfl | rfl
  · rcases hown with ⟨hd, hcase⟩ | ⟨ht, c, hc, hd⟩
    · rw [hd]; exact (hs r').offer hcase
    · rw [hd]; exact (hs r').sealNext ht hc
  · rw [hother]; exact hs r.other

/-- `decrypt` keeps the pair in step when an accepted byte string opens to the next plaintext of the
other end. -/
theorem Sync.decrypt {r data} (hs : Sync C H base s)
    (hnext : ∀ p, (s.chan r).recvCounter < rekeyThreshold →
      Aead.decrypt C (s.chan r).recvKey data = .ok p → (s.sent r.other)[(s.got r).length]? = some p)
    (h : step C H s (.decrypt r data) = some t) : Sync C H base t := by
  rcases step_decrypt h with ⟨rfl, _⟩ | ⟨hown, ht, p, hp, hd⟩
  · exact hs
  · intro r'
    rcases Role.eq_or_eq_other r r' with rfl | rfl
    · rw [hown]; exact hs r'
    · rw [hd]
      refine (hs r.other).deliver ?_
      simpa [direction, Direction.sent, sent] using hnext p ht hp

/-- The keys that the two chains use, up to the rekeying threshold, are distinct. -/
def DistinctKeys (H : Hkdf) (base : Role → Key) : Prop :=
  ∀ r r' i j, i < rekeyThreshold → j < rekeyThreshold →
    chainKey H (base r) i = chainKey H (base r') j → r = r' ∧ i = j

/-- Without forgeries an accepted byte string carries the next plaintext of the other end. -/
theorem Sync.next_of_noForgery {r data p} (hs : Sync C H base s) (hk : DistinctKeys H base)
    (hf : NoForgery C s (.decrypt r data)) (ht : (s.chan r).recvCounter < rekeyThreshold)
    (hp : Aead.decrypt C (s.chan r).recvKey data = .ok p) :
    (s.sent r.other)[(s.got r).length]? = some p := by
  obtain ⟨r', hmem⟩ := hf p hp
  obtain ⟨i, hi⟩ := List.mem_iff_getElem?.mp hmem
  have hd := hs r.other
  have hrecv : (s.chan r).recvKey = chainKey H (base r.other) (s.got r).length := by
    simpa [direction] using hd.recvKey
  have hcount : (s.chan r).recvCounter = (s.got r).length := by
    simpa [direction] using hd.recvCounter
  have hkey : (s.chan r).recvKey = chainKey H (base r') i := ((hs r').sealedKey i _ hi).1
  have hilt : i < rekeyThreshold := by
    have h1 := (List.getElem?_eq_some_iff.mp hi).1
    have h2 := (hs r').sealed_le
    simp only [direction] at h2
    omega
  -- the key identifies the direction and the position in it
  obtain ⟨rfl, rfl⟩ := hk _ _ _ _ hilt (by omega) (hkey.symm.trans hrecv)
  simp [sent, hi]

/-- On a benign network an accepted byte string is the next ciphertext of the other end. -/
theorem Sync.next_of_benign {r data p} (hs : Sync C H base s) (hb : Benign C s (.decrypt r data))
    (hp : Aead.decrypt C (s.chan r).recvKey data = .ok p) :
    (s.sent r.other)[(s.got r).length]? = some p := by
  rcases hb with hnext | ⟨e, he⟩
  · obtain ⟨e, he, rfl⟩ := Option.map_eq_some_iff.mp hnext
    have hopen := (hs r.other).next_opens (e := e) (by simpa [direction] using he)
    simp only [direction, Role.other_other] at hopen
    rw [hopen, Except.ok.injEq] at hp
    subst hp
    simp [sent, he]
  · rw [he] at hp; cases hp

/-- The keys that a shared secret gives the two ends to send with. -/
theorem init_sync {secret} (h : init H secret = .ok s) :
    Sync C H (fun r => (s.chan r).sendKey) s := by
  unfold init SecureChannel.new at h
  cases hk : deriveKeyPair H secret.toList none Domain.transport with
  | error e => simp [hk] at h
  | ok ks =>
      simp only [hk, Except.ok.injEq] at h
      subst h
      intro r
      cases r <;>
        exact ⟨⟨rfl, by simp [direction, Direction.sent]⟩, rfl, rfl, rfl, by simp [direction], Fifo.empty, rfl, rfl⟩

end Pair

end OmniMesh.Crypto
