import OmniMesh.Crypto.Aead
import OmniMesh.Crypto.Kdf
import OmniMesh.Crypto.Noise
import OmniMesh.Lib.Run

/-!
# The ratcheting channel (`omnimesh-crypto/src/channel.rs`)
-/

namespace OmniMesh.Crypto
open OmniMesh.Core

def rekeyThreshold : Nat := 1000000

structure SecureChannel where
  sendKey : Key
  recvKey : Key
  sendCounter : Nat
  recvCounter : Nat
  deriving DecidableEq, Repr

namespace SecureChannel

def new (H : Hkdf) (sharedSecret : Key) (isInitiator : Bool) : Result SecureChannel :=
  match deriveKeyPair H sharedSecret.toList none Domain.transport with
  | .error e => .error e
  | .ok (keyA, keyB) =>
      let (sendKey, recvKey) := if isInitiator then (keyA, keyB) else (keyB, keyA)
      .ok ⟨sendKey, recvKey, 0, 0⟩

/-- `nonce` is the one that `aead::encrypt` draws. -/
def encrypt (C : ChaCha20Poly1305) (H : Hkdf) (self : SecureChannel) (nonce : Nonce)
    (plaintext : Bytes) : Result Bytes × SecureChannel :=
  if self.sendCounter ≥ rekeyThreshold then
    (.error (.crypto "send key exhausted — rekeying required"), self)
  else match Aead.encrypt C self.sendKey nonce plaintext with
    | .error e => (.error e, self)
    | .ok ciphertext => match ratchetKey H self.sendKey with
      | .error e => (.error e, self)
      | .ok key =>
          (.ok ciphertext, { self with sendKey := key, sendCounter := self.sendCounter + 1 })

def decrypt (C : ChaCha20Poly1305) (H : Hkdf) (self : SecureChannel) (ciphertext : Bytes) :
    Result Bytes × SecureChannel :=
  if self.recvCounter ≥ rekeyThreshold then
    (.error (.crypto "receive key exhausted — rekeying required"), self)
  else match Aead.decrypt C self.recvKey ciphertext with
    | .error e => (.error e, self)
    | .ok plaintext => match ratchetKey H self.recvKey with
      | .error e => (.error e, self)
      | .ok key =>
          (.ok plaintext, { self with recvKey := key, recvCounter := self.recvCounter + 1 })

end SecureChannel

/-! ## Two channels and the network between them -/

structure Sealed where
  key : Key
  plaintext : Bytes
  data : Bytes
  deriving DecidableEq, Repr

/-- The two ends of one shared secret, with the history of the run: the plaintexts offered to each
end's `encrypt` within the length limit of the cipher, the calls of `aead::encrypt` that followed, and
the plaintexts that each end's `decrypt` has returned. -/
structure Pair where
  chan : Role → SecureChannel
  offered : Role → List Bytes
  sealed : Role → List Sealed
  got : Role → List Bytes

/-- What the two applications and the network can do. The network gives an end any byte string. -/
inductive PairAct
  | encrypt (r : Role) (nonce : Nonce) (plaintext : Bytes)
  | decrypt (r : Role) (data : Bytes)

namespace Pair

def init (H : Hkdf) (sharedSecret : Key) : Result Pair :=
  match SecureChannel.new H sharedSecret true, SecureChannel.new H sharedSecret false with
  | .ok a, .ok b =>
      .ok
        { chan := fun r => match r with
            | .initiator => a
            | .responder => b
          offered := fun _ => []
          sealed := fun _ => []
          got := fun _ => [] }
  | .error e, _ => .error e
  | _, .error e => .error e

def step (C : ChaCha20Poly1305) (H : Hkdf) (s : Pair) : PairAct → Option Pair
  | .encrypt r nonce p =>
      let offered := if p.length ≤ C.maxLen then
        Function.update s.offered r (s.offered r ++ [p]) else s.offered
      match (s.chan r).encrypt C H nonce p with
      | (.error _, ch) =>
          some { s with chan := Function.update s.chan r ch, offered := offered }
      | (.ok c, ch) => some
          { s with
            chan := Function.update s.chan r ch
            offered := offered
            sealed := Function.update s.sealed r (s.sealed r ++ [⟨(s.chan r).sendKey, p, c⟩]) }
  | .decrypt r data =>
      match (s.chan r).decrypt C H data with
      | (.error _, ch) => some { s with chan := Function.update s.chan r ch }
      | (.ok p, ch) => some
          { s with
            chan := Function.update s.chan r ch
            got := Function.update s.got r (s.got r ++ [p]) }

def sent (s : Pair) (r : Role) : List Bytes := (s.sealed r).map Sealed.plaintext

/-- The ideal AEAD: an accepted byte string was made by `aead::encrypt` under the same key, from the
plaintext that it opens to. -/
def NoForgery (C : ChaCha20Poly1305) (s : Pair) : PairAct → Prop
  | .encrypt _ _ _ => True
  | .decrypt r data => ∀ p, Aead.decrypt C (s.chan r).recvKey data = .ok p →
      ∃ r', ⟨(s.chan r).recvKey, p, data⟩ ∈ s.sealed r'

/-- The benign network: it gives an end the other end's ciphertexts in order, and otherwise only byte
strings that `aead::decrypt` rejects under the current key. -/
def Benign (C : ChaCha20Poly1305) (s : Pair) : PairAct → Prop
  | .encrypt _ _ _ => True
  | .decrypt r data => ((s.sealed r.other)[(s.got r).length]?).map Sealed.data = some data ∨
      ∃ e, Aead.decrypt C (s.chan r).recvKey data = .error e

end Pair

end OmniMesh.Crypto
