import OmniMesh.Crypto.Channel

/-!
# What is left of a channel, and what its keys disclose (`omnimesh-crypto/src/channel.rs`)

The adversary is a symbolic one: it can ratchet a key that it has, as anyone can, and it cannot go back.
-/

namespace OmniMesh.Crypto
open OmniMesh.Core

namespace SecureChannel

def messagesRemaining (self : SecureChannel) : ℕ := rekeyThreshold - max self.sendCounter self.recvCounter

/-- Who reads the memory of the channel has this key after at most `n` ratchet steps. -/
def Discloses (H : Hkdf) (n : ℕ) (self : SecureChannel) (k : Key) : Prop :=
  ∃ m, m ≤ n ∧ (k = chainKey H self.sendKey m ∨ k = chainKey H self.recvKey m)

end SecureChannel

/-- The first keys of the two chains are distinct. -/
def Pair.DistinctBelow (H : Hkdf) (bound : ℕ) (base : Role → Key) : Prop :=
  ∀ r r' i j, i < bound → j < bound → chainKey H (base r) i = chainKey H (base r') j → r = r' ∧ i = j

end OmniMesh.Crypto
