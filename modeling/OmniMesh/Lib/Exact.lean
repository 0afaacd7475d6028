import OmniMesh.Lib.Codec

/-!
# Codecs that accept nothing but encodings
-/

namespace Codec

variable {α β : Type} {c : Codec α} {d : Codec β} {bytes p rest : List UInt8} {a b : α}

/-- What is decoded is a value that fits, and the bytes that were used up are its encoding. -/
def Exact (c : Codec α) : Prop :=
  ∀ bytes a rest, c.decode bytes = .ok (a, rest) → c.Fits a ∧ bytes = c.encode a ++ rest

theorem Exact.deserialize_iff (h : c.Exact) :
    c.deserialize bytes = .ok a ↔ c.Fits a ∧ ∃ rest, bytes = c.serialize a ++ rest := by
  constructor
  · intro hd
    unfold deserialize at hd
    split at hd
    · rename_i a' rest hdec
      cases hd
      obtain ⟨hfits, heq⟩ := h _ _ _ hdec
      exact ⟨hfits, rest, heq⟩
    · cases hd
  · rintro ⟨hfits, rest, rfl⟩
    rw [deserialize, serialize, c.decode_encode a rest hfits]

/-- No encoding is the beginning of another one. -/
theorem Exact.eq_of_prefix (h : c.Exact) (hfits : c.Fits a) (hp : p <+: c.serialize a)
    (hd : c.deserialize p = .ok b) : p = c.serialize a ∧ b = a := by
  obtain ⟨hfits', rest, rfl⟩ := h.deserialize_iff.mp hd
  obtain ⟨rest', hrest⟩ := hp
  have hb := c.decode_encode b (rest ++ rest') hfits'
  have ha := c.decode_encode a [] hfits
  have hbytes : c.encode b ++ (rest ++ rest') = c.encode a ++ [] := by
    rw [← List.append_assoc, List.append_nil]
    exact hrest
  rw [hbytes, ha] at hb
  obtain ⟨hab, hnil⟩ := Prod.mk.inj (Except.ok.inj hb)
  subst hab
  rw [(List.append_eq_nil_iff.mp hnil.symm).1, List.append_nil]
  exact ⟨rfl, rfl⟩

/-! ## The parts of a format -/

theorem of_bind_ok {ε : Type} {x : Except ε α} {f : α → Except ε β} {b : β} (h : (x >>= f) = .ok b) :
    ∃ a, x = .ok a ∧ f a = .ok b := by
  cases x with
  | error e => cases h
  | ok a => exact ⟨a, rfl, h⟩

theorem splitBytes_ok {eof : String} {n : ℕ} {xs : List UInt8} (h : splitBytes eof n bytes = .ok (xs, rest)) :
    xs.length = n ∧ bytes = xs ++ rest := by
  unfold splitBytes at h
  split at h
  · rename_i hle
    cases h
    exact ⟨List.length_take_of_le hle, (List.take_append_drop n bytes).symm⟩
  · cases h

theorem exact_nat (w : ℕ) : (nat w).Exact := by
  intro bytes n rest h
  obtain ⟨⟨xs, rest'⟩, hsplit, h⟩ := of_bind_ok h
  cases h
  obtain ⟨rfl, rfl⟩ := splitBytes_ok hsplit
  exact ⟨leNat_lt xs, congrArg (· ++ rest) (leBytes_leNat xs).symm⟩

theorem exact_array (n : ℕ) : (array n).Exact := by
  intro bytes v rest h
  obtain ⟨⟨xs, rest'⟩, hsplit, h⟩ := of_bind_ok h
  cases h
  obtain ⟨hlen, rfl⟩ := splitBytes_ok hsplit
  have hxs : (Vector.ofFn fun i : Fin n => xs.getD i 0).toList = xs := by
    refine List.ext_getElem (by simp [hlen]) fun i hi hi' => ?_
    simp [hi']
  exact ⟨trivial, congrArg (· ++ rest) hxs.symm⟩

theorem Exact.pair (hc : c.Exact) (hd : d.Exact) : (c.pair d).Exact := by
  intro bytes ab rest h
  obtain ⟨⟨a, rest₁⟩, ha, h⟩ := of_bind_ok h
  obtain ⟨⟨b, rest₂⟩, hb, h⟩ := of_bind_ok h
  cases h
  obtain ⟨hfits, rfl⟩ := hc _ _ _ ha
  obtain ⟨hfits', rfl⟩ := hd _ _ _ hb
  exact ⟨⟨hfits, hfits'⟩, (List.append_assoc ..).symm⟩

/-- A value of `β` is read only from the value of `α` that it is written as. -/
theorem Exact.mapM {f : α → Except String β} {g : β → α} {hfg : ∀ b, f (g b) = .ok b} (hc : c.Exact)
    (hgf : ∀ a b, c.Fits a → f a = .ok b → g b = a) : (c.mapM f g hfg).Exact := by
  intro bytes b rest h
  obtain ⟨⟨a, rest₁⟩, ha, h⟩ := of_bind_ok h
  obtain ⟨b', hb, h⟩ := of_bind_ok h
  cases h
  obtain ⟨hfits, rfl⟩ := hc _ _ _ ha
  cases hgf a b hfits hb
  exact ⟨hfits, rfl⟩

theorem Exact.map {f : α → β} {g : β → α} {hfg : ∀ b, f (g b) = b} (hc : c.Exact)
    (hgf : ∀ a, c.Fits a → g (f a) = a) : (c.map f g hfg).Exact := by
  refine hc.mapM fun a b hfits h => ?_
  cases h
  exact hgf a hfits

theorem exact_block (eof : String) : (block eof).Exact := by
  intro bs xs rest h
  obtain ⟨⟨n, rest₁⟩, hn, hsplit⟩ := of_bind_ok h
  obtain ⟨hfits, hbs⟩ := exact_nat 8 _ _ _ hn
  obtain ⟨hlen, hrest⟩ := splitBytes_ok hsplit
  rw [hbs, ← hlen, hrest, ← List.append_assoc]
  rw [← hlen] at hfits
  exact ⟨hfits, rfl⟩

theorem exact_bytes : Codec.bytes.Exact := exact_block eofText

theorem exact_string : string.Exact := by
  refine (exact_block "").mapM fun bs s _ h => ?_
  split at h
  · rename_i s' hs
    cases h
    unfold String.fromUTF8? at hs
    split at hs
    · cases hs
      rfl
    · cases hs
  · cases h

theorem exact_u8 : u8.Exact :=
  (exact_nat 1).map fun n hn => UInt8.toNat_ofNat_of_lt (lt_of_lt_of_eq hn (by norm_num))

end Codec
