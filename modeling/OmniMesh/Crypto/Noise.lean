import Mathlib.Algebra.Ring.Nat
import OmniMesh.Core.Types

/-!
# The Noise transport (`omnimesh-crypto/src/noise.rs`)

The cipher states are the `snow` crate and stay a parameter: one AEAD for each direction, a function of
the implicit counter nonce.
-/

namespace OmniMesh.Crypto
open OmniMesh.Core

inductive Role
  | initiator
  | responder
  deriving DecidableEq, Repr

def Role.other : Role → Role
  | .initiator => .responder
  | .responder => .initiator

@[simp] theorem Role.other_other (r : Role) : r.other.other = r := by cases r <;> rfl

@[simp] theorem Role.other_ne (r : Role) : r.other ≠ r := by cases r <;> decide

@[simp] theorem Role.ne_other (r : Role) : r ≠ r.other := by cases r <;> decide

theorem Role.eq_or_eq_other (r r' : Role) : r' = r ∨ r' = r.other := by
  cases r <;> cases r' <;> decide

def maxMessageLen : Nat := 65535

/-- The nonce that no message may use. -/
def maxNonce : Nat := 2 ^ 64 - 1

/-- The cipher of one direction. Sealing fails exactly beyond the message limit and when the nonces are
used up. Opening under a nonce accepts the ciphertexts sealed under that nonce and no others. -/
structure Cipher where
  encrypt : Nat → Bytes → Except String Bytes
  decrypt : Nat → Bytes → Except String Bytes
  encrypt_ok : ∀ n p, n < maxNonce → p.length + 16 ≤ maxMessageLen → ∃ c, encrypt n p = .ok c
  encrypt_limit : ∀ n p c, encrypt n p = .ok c →
    n < maxNonce ∧ c.length = p.length + 16 ∧ c.length ≤ maxMessageLen
  decrypt_encrypt : ∀ n p c, encrypt n p = .ok c → decrypt n c = .ok p
  encrypt_of_decrypt : ∀ n p c, decrypt n c = .ok p → encrypt n p = .ok c
  nonce_eq : ∀ m n p q c, encrypt m p = .ok c → encrypt n q = .ok c → m = n

/-- `NoiseTransport`: the two counters of snow's `TransportState`, and the remote static key. -/
structure NoiseTransport where
  role : Role
  sendNonce : Nat
  recvNonce : Nat
  remoteStatic : Option Key
  deriving DecidableEq, Repr

namespace NoiseTransport

def fresh (role : Role) (remoteStatic : Option Key) : NoiseTransport := ⟨role, 0, 0, remoteStatic⟩

def encrypt (K : Role → Cipher) (self : NoiseTransport) (plaintext : Bytes) :
    Result Bytes × NoiseTransport :=
  match (K self.role).encrypt self.sendNonce plaintext with
  | .error e => (.error (.crypto s!"noise encrypt: {e}"), self)
  | .ok ciphertext => (.ok ciphertext, { self with sendNonce := self.sendNonce + 1 })

/-- `NoiseTransport::decrypt`: uses the receive nonce and increments it on success only. -/
def decrypt (K : Role → Cipher) (self : NoiseTransport) (ciphertext : Bytes) :
    Result Bytes × NoiseTransport :=
  match (K self.role.other).decrypt self.recvNonce ciphertext with
  | .error e => (.error (.crypto s!"noise decrypt: {e}"), self)
  | .ok plaintext => (.ok plaintext, { self with recvNonce := self.recvNonce + 1 })

variable {K : Role → Cipher} {t t' : NoiseTransport} {p c : Bytes}

theorem encrypt_cases (h : t.encrypt K p = (.ok c, t')) :
    (K t.role).encrypt t.sendNonce p = .ok c ∧ t' = { t with sendNonce := t.sendNonce + 1 } := by
  unfold encrypt at h
  split at h
  · cases h
  · rename_i c' hc
    simp only [Prod.mk.injEq, Except.ok.injEq] at h
    obtain ⟨rfl, rfl⟩ := h
    exact ⟨hc, rfl⟩

theorem encrypt_error {e} (h : t.encrypt K p = (.error e, t')) : t' = t := by
  unfold encrypt at h
  split at h
  · simp only [Prod.mk.injEq] at h
    exact h.2.symm
  · cases h

theorem decrypt_cases (h : t.decrypt K c = (.ok p, t')) :
    (K t.role.other).decrypt t.recvNonce c = .ok p ∧
      t' = { t with recvNonce := t.recvNonce + 1 } := by
  unfold decrypt at h
  split at h
  · cases h
  · rename_i p' hp
    simp only [Prod.mk.injEq, Except.ok.injEq] at h
    obtain ⟨rfl, rfl⟩ := h
    exact ⟨hp, rfl⟩

theorem decrypt_error {e} (h : t.decrypt K c = (.error e, t')) : t' = t := by
  unfold decrypt at h
  split at h
  · simp only [Prod.mk.injEq] at h
    exact h.2.symm
  · cases h

theorem decrypt_sealed (h : (K t.role.other).encrypt t.recvNonce p = .ok c) :
    t.decrypt K c = (.ok p, { t with recvNonce := t.recvNonce + 1 }) := by
  rw [decrypt, (K t.role.other).decrypt_encrypt _ _ _ h]

end NoiseTransport

end OmniMesh.Crypto
