import OmniMesh.Core.Lemmas.Concrete
import OmniMesh.Crypto.Noise
import OmniMesh.Lib.Codec
import OmniMesh.Sdk.Delivery

/-!
# A concrete Noise cipher

A ciphertext carries its nonce as its tag. The instance is there to run the model, as are the two nodes:
nothing general is proved from them.
-/

namespace OmniMesh.Sdk
open OmniMesh.Core OmniMesh.Crypto

theorem leBytes_inj {w m n : Nat} (hm : m < 256 ^ w) (hn : n < 256 ^ w)
    (h : Codec.leBytes w m = Codec.leBytes w n) : m = n := by
  rw [← Codec.leNat_leBytes hm, h, Codec.leNat_leBytes hn]

def nonceCipher : Cipher where
  encrypt n p :=
    if n < maxNonce ∧ p.length + 16 ≤ maxMessageLen then .ok (p ++ Codec.leBytes 16 n)
    else .error "input error"
  decrypt n c :=
    if n < maxNonce ∧ 16 ≤ c.length ∧ c.length ≤ maxMessageLen ∧
        c.drop (c.length - 16) = Codec.leBytes 16 n then .ok (c.take (c.length - 16))
    else .error "decrypt error"
  encrypt_ok n p hn hp := ⟨_, if_pos ⟨hn, hp⟩⟩
  encrypt_limit n p c h := by
    split at h
    · rename_i hlim
      cases h
      simp [Codec.leBytes_length, hlim.1, hlim.2]
    · cases h
  decrypt_encrypt n p c h := by
    split at h
    · rename_i hlim
      cases h
      simp [Codec.leBytes_length, hlim.1, hlim.2]
    · cases h
  encrypt_of_decrypt n p c h := by
    split at h
    · rename_i hlim
      obtain ⟨hn, hge, hle, htag⟩ := hlim
      cases h
      rw [if_pos ⟨hn, by rw [List.length_take]; omega⟩, ← htag, List.take_append_drop]
    · cases h
  nonce_eq m n p q c hm hn := by
    split at hm
    · rename_i hlim
      split at hn
      · rename_i hlim'
        simp only [Except.ok.injEq] at hm hn
        subst hm
        have htag := (List.append_inj' hn (by simp [Codec.leBytes_length])).2
        have hlt : maxNonce < 256 ^ 16 := by decide
        exact (leBytes_inj (hlim'.1.trans hlt) (hlim.1.trans hlt) htag).symm
      · cases hn
    · cases hm

def nonceCiphers : Role → Cipher := fun _ => nonceCipher

def noUpdates : UpdateDecoder := fun _ => .error "io error: unexpected end of file"

def peerOfRole : Role → PeerId
  | .initiator => samplePeer 1
  | .responder => samplePeer 2

/-- A message goes from a sender of one node to the handlers of the other. -/
def carried {β : Type} (r : Role) (call : Sender) : List (PeersAct β) :=
  [.own r (.encrypt 0 call), .own r (.enqueue 0), .own r .pop, .own r .write, .recv r.other, .handle r.other 0]

end OmniMesh.Sdk
