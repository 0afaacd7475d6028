import OmniMesh.Sdk.Exchange
import OmniMesh.Sdk.Lemmas.Wire

/-!
# Effects and their causes
-/

namespace OmniMesh.Sdk
open OmniMesh.Core OmniMesh.Crypto

variable {K : Role → Cipher} {D : UpdateDecoder} {r : Role} {s t : Exchange}

theorem Finishes.caused {env t ty p out} (h : Finishes K D env t ty p out) :
    out.2.2 = [] ∨ ∃ e, out.2.2 = [e] ∧ e.CausedBy D (ty, p) := by
  cases h with
  | failed e => exact .inl rfl
  | quiet => exact .inl rfl
  | dispatched hty hp => exact .inr ⟨_, rfl, hty, hp⟩
  | dispatchFailed e hty hp => exact .inr ⟨_, rfl, hty, hp⟩
  | routed hty hu => exact .inr ⟨_, rfl, hty, hu⟩
  | ponged hty hc => exact .inr ⟨_, rfl, hty, rfl⟩
  | sampled hty hs hle => exact .inr ⟨_, rfl, hty, hs, hle⟩

theorem Finishes.recvNonce {env t ty p out} (h : Finishes K D env t ty p out) :
    out.2.1.role = t.role ∧ out.2.1.recvNonce = t.recvNonce := by
  cases h <;> exact ⟨rfl, rfl⟩

/-! ## The invariant of one direction -/

/-- The receiver's effects and the packet in its hands come, in order, from the packets sealed under
the nonces it has passed. -/
structure Traced (D : UpdateDecoder) (sealed : List (UInt8 × Bytes)) (o : Party) : Prop where
  le : o.transport.recvNonce ≤ sealed.length
  causes : ∃ causes, (causes ++ o.handling.toList).Sublist (sealed.take o.transport.recvNonce) ∧
    List.Forall₂ (Effect.CausedBy D) o.effects causes

namespace Traced

variable {sealed : List (UInt8 × Bytes)} {o o' : Party}

theorem append (h : Traced D sealed o) (more : List (UInt8 × Bytes)) : Traced D (sealed ++ more) o where
  le := h.le.trans (by rw [List.length_append]; exact Nat.le_add_right _ _)
  causes := by
    rw [List.take_append_of_le_length h.le]
    exact h.causes

theorem encrypt (h : Traced D sealed o) (sender : Sender) : Traced D sealed (o.encrypt K sender) := by
  unfold Party.encrypt
  split
  · rename_i e t ht
    rw [NoiseTransport.encrypt_error ht]
    exact h
  · rename_i c t hc
    obtain ⟨-, rfl⟩ := NoiseTransport.encrypt_cases hc
    exact ⟨h.le, h.causes⟩

theorem deliver {bytes} (h : Traced D sealed o)
    (hnext : ∀ packet p, WirePacket.codec.deserialize bytes = .ok packet →
      packet.magic = WirePacket.omsh → PacketType.Handled packet.packetType →
      (K o.transport.role.other).decrypt o.transport.recvNonce packet.payload = .ok p →
      sealed[o.transport.recvNonce]? = some (packet.packetType, p))
    (hd : o.deliver K bytes = some o') : Traced D sealed o' := by
  unfold Party.deliver at hd
  split at hd
  · cases hd
  · rename_i hidle
    have ho := openPacket_opens (K := K) (t := o.transport) bytes
    generalize openPacket K o.transport bytes = out at hd ho
    cases ho with
    | refused e => cases hd; exact h
    | ignored => cases hd; exact h
    | opened hp hm hty hdec =>
        cases hd
        have hget := hnext _ _ hp hm hty hdec
        obtain ⟨hlt, hget⟩ := List.getElem?_eq_some_iff.mp hget
        obtain ⟨causes, hsub, hall⟩ := h.causes
        rw [hidle] at hsub
        refine ⟨hlt, causes, ?_, hall⟩
        rw [List.take_succ_eq_append_getElem hlt, hget]
        exact (by simpa using hsub : causes.Sublist _).append (.refl _)

theorem handle {env} (h : Traced D sealed o) (hh : o.handle K D env = some o') :
    Traced D sealed o' := by
  unfold Party.handle at hh
  split at hh
  · cases hh
  · rename_i ty p hp
    have hf : Finishes K D env o.transport ty p _ := finishPacket_finishes ty p
    generalize finishPacket K D env o.transport ty p = out at hh hf
    obtain ⟨res, t, es⟩ := out
    have hes := hf.caused
    have ht := hf.recvNonce.2
    dsimp only at hh hes ht
    cases hh
    obtain ⟨causes, hsub, hall⟩ := h.causes
    rw [hp] at hsub
    refine ⟨ht ▸ h.le, ?_⟩
    dsimp only
    rw [ht]
    rcases hes with rfl | ⟨e, rfl, he⟩
    · refine ⟨causes, ?_, by rw [List.append_nil]; exact hall⟩
      exact (List.sublist_append_left _ _).trans (by simpa using hsub)
    · refine ⟨causes ++ [(ty, p)], by simpa using hsub, ?_⟩
      exact List.rel_append hall (.cons he .nil)

end Traced

/-! ## The invariant of the exchange -/

/-- A step of a node keeps its role and only adds to its log of sealed packets. -/
def Party.Extends (o o' : Party) : Prop :=
  o'.transport.role = o.transport.role ∧ ∃ more, o'.sealed = o.sealed ++ more

namespace Party

variable {o o' : Party}

theorem extends_encrypt (sender : Sender) : o.Extends (o.encrypt K sender) := by
  unfold encrypt
  split
  · rename_i e t ht
    rw [NoiseTransport.encrypt_error ht]
    exact ⟨rfl, [], (List.append_nil _).symm⟩
  · rename_i c t hc
    obtain ⟨-, rfl⟩ := NoiseTransport.encrypt_cases hc
    exact ⟨rfl, _, rfl⟩

theorem extends_deliver {bytes} (h : o.deliver K bytes = some o') : o.Extends o' := by
  unfold deliver at h
  split at h
  · cases h
  · have ho := openPacket_opens (K := K) (t := o.transport) bytes
    generalize openPacket K o.transport bytes = out at h ho
    cases ho <;> cases h <;> exact ⟨rfl, [], (List.append_nil _).symm⟩

theorem extends_handle {env} (h : o.handle K D env = some o') : o.Extends o' := by
  unfold handle at h
  split at h
  · cases h
  · rename_i ty p _
    have hf : Finishes K D env o.transport ty p _ := finishPacket_finishes ty p
    generalize finishPacket K D env o.transport ty p = out at h hf
    cases h
    exact ⟨hf.recvNonce.1, _, rfl⟩

end Party

namespace Exchange

structure AllTraced (D : UpdateDecoder) (s : Exchange) : Prop where
  role : ∀ r, (s r).transport.role = r
  traced : ∀ r, Traced D (s r.other).sealed (s r)

theorem init_allTraced (remoteStatic : Role → Option Key) : AllTraced D (init remoteStatic) where
  role _ := rfl
  traced _ := ⟨le_rfl, [], .slnil, .nil⟩

theorem AllTraced.update {o} (h : AllTraced D s) (hext : (s r).Extends o)
    (ho : Traced D (s r.other).sealed o) : AllTraced D (Function.update s r o) where
  role r' := by
    rcases Role.eq_or_eq_other r r' with rfl | rfl
    · rw [Function.update_self]
      exact hext.1.trans (h.role r')
    · rw [Function.update_of_ne r.other_ne]
      exact h.role _
  traced r' := by
    rcases Role.eq_or_eq_other r r' with rfl | rfl
    · rw [Function.update_self, Function.update_of_ne r'.other_ne]
      exact ho
    · rw [Role.other_other, Function.update_self, Function.update_of_ne r.other_ne]
      obtain ⟨-, more, hmore⟩ := hext
      have := (h.traced r.other).append more
      rw [Role.other_other] at this
      rw [hmore]
      exact this

/-- What an ideal cipher accepts under its own type is the next packet of the log. -/
theorem AllTraced.step {act} (h : AllTraced D s) (hideal : s.NoForgery K act)
    (htype : s.TypeKept K act) (hs : s.step K D act = some t) : AllTraced D t := by
  cases act with
  | encrypt r sender =>
      cases hs
      exact h.update (Party.extends_encrypt sender) ((h.traced r).encrypt sender)
  | deliver r bytes =>
      obtain ⟨o, ho, rfl⟩ := Option.map_eq_some_iff.mp hs
      refine h.update (Party.extends_deliver ho) ((h.traced r).deliver ?_ ho)
      intro packet p hp hm hty hdec
      rw [h.role r] at hdec
      obtain ⟨ty, hget⟩ := hideal packet p ⟨hp, hm, hty, hdec⟩
      rw [hget, htype packet p ⟨hp, hm, hty, hdec⟩ _ hget]
  | handle r env =>
      obtain ⟨o, ho, rfl⟩ := Option.map_eq_some_iff.mp hs
      exact h.update (Party.extends_handle ho) ((h.traced r).handle ho)

theorem AllTraced.authentic (h : AllTraced D s) (r : Role) : s.Authentic D r := by
  obtain ⟨causes, hsub, hall⟩ := (h.traced r).causes
  exact ⟨causes, (List.sublist_append_left _ _).trans (hsub.trans (List.take_sublist _ _)), hall⟩

end Exchange

end OmniMesh.Sdk
