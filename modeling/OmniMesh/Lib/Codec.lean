import Mathlib.Algebra.Order.Monoid.NatCast
import Mathlib.Tactic.Ring

/-!
# Byte codecs

Encoders and decoders over byte lists with their round trip, and the combinators that build the codec
of a record from those of its fields. The format and the texts of the errors are those of `bincode`: the
integers are little-endian and of fixed width.
-/

/-- `Fits` are the values the encoding can represent. A decoder leaves the bytes it does not use. -/
structure Codec (α : Type) where
  Fits : α → Prop
  encode : α → List UInt8
  decode : List UInt8 → Except String (α × List UInt8)
  decode_encode : ∀ a rest, Fits a → decode (encode a ++ rest) = .ok (a, rest)

namespace Codec

variable {α β : Type}

def serialize (c : Codec α) (a : α) : List UInt8 := c.encode a

/-- Bytes after the value are ignored. -/
def deserialize (c : Codec α) (bytes : List UInt8) : Except String α :=
  match c.decode bytes with
  | .ok (a, _) => .ok a
  | .error e => .error e

theorem deserialize_serialize {c : Codec α} {a} (h : c.Fits a) :
    c.deserialize (c.serialize a) = .ok a := by
  have hd := c.decode_encode a [] h
  rw [List.append_nil] at hd
  rw [deserialize, serialize, hd]

/-! ## Fixed-width parts -/

/-- What is said of the end of the input, unless it is in the middle of a string. -/
def eofText : String := "unexpected end of file"

def splitBytes (eof : String) (n : Nat) (bytes : List UInt8) : Except String (List UInt8 × List UInt8) :=
  if n ≤ bytes.length then .ok (bytes.take n, bytes.drop n) else .error s!"io error: {eof}"

theorem splitBytes_append {eof n xs} (rest : List UInt8) (h : xs.length = n) :
    splitBytes eof n (xs ++ rest) = .ok (xs, rest) := by
  rw [splitBytes, if_pos (by simp [h]), List.take_left' h, List.drop_left' h]

def leBytes : Nat → Nat → List UInt8
  | 0, _ => []
  | w + 1, n => UInt8.ofNat n :: leBytes w (n / 256)

def leNat : List UInt8 → Nat
  | [] => 0
  | b :: bs => b.toNat + 256 * leNat bs

theorem leBytes_length (w n : Nat) : (leBytes w n).length = w := by
  induction w generalizing n with
  | zero => rfl
  | succ w ih => rw [leBytes, List.length_cons, ih]

theorem leNat_leBytes {w n : Nat} (h : n < 256 ^ w) : leNat (leBytes w n) = n := by
  induction w generalizing n with
  | zero =>
      have hn : n = 0 := by simpa using h
      rw [hn]
      rfl
  | succ w ih =>
      have hq : n / 256 < 256 ^ w := Nat.div_lt_of_lt_mul (by rwa [pow_succ'] at h)
      have hb : (UInt8.ofNat n).toNat = n % 256 := UInt8.toNat_ofNat'
      rw [leBytes, leNat, ih hq, hb]
      exact Nat.mod_add_div n 256

theorem leNat_lt (bs : List UInt8) : leNat bs < 256 ^ bs.length := by
  induction bs with
  | nil => exact Nat.one_pos
  | cons b bs ih =>
      have hb := b.toNat_lt
      rw [leNat, List.length_cons, pow_succ']
      omega

theorem leBytes_leNat (bs : List UInt8) : leBytes bs.length (leNat bs) = bs := by
  induction bs with
  | nil => rfl
  | cons b bs ih =>
      have hb := b.toNat_lt
      have hq : (b.toNat + 256 * leNat bs) / 256 = leNat bs := by omega
      have hr : UInt8.ofNat (b.toNat + 256 * leNat bs) = b := by
        apply UInt8.toNat_inj.mp
        rw [UInt8.toNat_ofNat']
        omega
      rw [List.length_cons, leBytes, leNat, hq, hr, ih]

def nat (w : Nat) : Codec Nat where
  Fits n := n < 256 ^ w
  encode := leBytes w
  decode bytes := do
    let (xs, rest) ← splitBytes eofText w bytes
    return (leNat xs, rest)
  decode_encode n rest h := by
    rw [splitBytes_append rest (leBytes_length w n)]
    exact congrArg (fun m => Except.ok (m, rest)) (leNat_leBytes h)

def array (n : Nat) : Codec (Vector UInt8 n) where
  Fits _ := True
  encode v := v.toList
  decode bytes := do
    let (xs, rest) ← splitBytes eofText n bytes
    return (Vector.ofFn fun i => xs.getD i 0, rest)
  decode_encode v rest _ := by
    rw [splitBytes_append rest (by simp)]
    refine congrArg (fun w => Except.ok (w, rest)) (Vector.ext fun i hi => ?_)
    simp

/-! ## Combinators -/

def pair (c : Codec α) (d : Codec β) : Codec (α × β) where
  Fits ab := c.Fits ab.1 ∧ d.Fits ab.2
  encode ab := c.encode ab.1 ++ d.encode ab.2
  decode bytes := do
    let (a, rest) ← c.decode bytes
    let (b, rest) ← d.decode rest
    return ((a, b), rest)
  decode_encode ab rest h := by
    rw [List.append_assoc, c.decode_encode _ _ h.1]
    exact congrArg (· >>= fun x => pure ((ab.1, x.1), x.2)) (d.decode_encode _ rest h.2)

/-- The values of `β` that `g` writes as an `α`; `f` reads them and may refuse. -/
def mapM (c : Codec α) (f : α → Except String β) (g : β → α) (hfg : ∀ b, f (g b) = .ok b) :
    Codec β where
  Fits b := c.Fits (g b)
  encode b := c.encode (g b)
  decode bytes := do
    let (a, rest) ← c.decode bytes
    let b ← f a
    return (b, rest)
  decode_encode b rest h := by
    rw [c.decode_encode _ _ h]
    exact congrArg (· >>= fun x => pure (x, rest)) (hfg b)

def map (c : Codec α) (f : α → β) (g : β → α) (hfg : ∀ b, f (g b) = b) : Codec β :=
  c.mapM (fun a => .ok (f a)) g fun b => congrArg Except.ok (hfg b)

/-- Two variants, each behind its index. -/
def sum (expected : String) (c : Codec α) (d : Codec β) : Codec (α ⊕ β) where
  Fits := Sum.elim c.Fits d.Fits
  encode
    | .inl a => (nat 4).encode 0 ++ c.encode a
    | .inr b => (nat 4).encode 1 ++ d.encode b
  decode bytes := do
    let (index, rest) ← (nat 4).decode bytes
    match index with
    | 0 => (c.decode rest).map fun x => (.inl x.1, x.2)
    | 1 => (d.decode rest).map fun x => (.inr x.1, x.2)
    | n => .error s!"invalid value: integer `{n}`, expected {expected}"
  decode_encode ab rest h := by
    cases ab with
    | inl a =>
        rw [List.append_assoc, (nat 4).decode_encode _ _ (show 0 < 256 ^ 4 by norm_num)]
        exact congrArg (Except.map _) (c.decode_encode a rest h)
    | inr b =>
        rw [List.append_assoc, (nat 4).decode_encode _ _ (show 1 < 256 ^ 4 by norm_num)]
        exact congrArg (Except.map _) (d.decode_encode b rest h)

def u8 : Codec UInt8 := (nat 1).map UInt8.ofNat UInt8.toNat fun _ => UInt8.ofNat_toNat

def u16 : Codec UInt16 := (nat 2).map UInt16.ofNat UInt16.toNat fun _ => UInt16.ofNat_toNat

def u64 : Codec UInt64 := (nat 8).map UInt64.ofNat UInt64.toNat fun _ => UInt64.ofNat_toNat

theorem u8_fits (b : UInt8) : u8.Fits b := lt_of_lt_of_eq b.toNat_lt (by norm_num)

theorem u16_fits (b : UInt16) : u16.Fits b := lt_of_lt_of_eq b.toNat_lt (by norm_num)

theorem u64_fits (b : UInt64) : u64.Fits b := lt_of_lt_of_eq b.toNat_lt (by norm_num)

/-- Bytes behind their number. -/
def block (eof : String) : Codec (List UInt8) where
  Fits xs := xs.length < 256 ^ 8
  encode xs := (nat 8).encode xs.length ++ xs
  decode bs := do
    let (n, rest) ← (nat 8).decode bs
    splitBytes eof n rest
  decode_encode xs rest h := by
    rw [List.append_assoc, (nat 8).decode_encode _ _ h]
    exact splitBytes_append rest rfl

def bytes : Codec (List UInt8) := block eofText

/-! ## Strings -/

/-- The length of a character that begins with this byte, and `0` when none does. -/
def utf8Width (a : UInt8) : Nat :=
  if a < 0x80 then 1
  else if 0xc2 ≤ a ∧ a ≤ 0xdf then 2
  else if 0xe0 ≤ a ∧ a ≤ 0xef then 3
  else if 0xf0 ≤ a ∧ a ≤ 0xf4 then 4
  else 0

def isContinuation (b : UInt8) : Bool := 0x80 ≤ b && b ≤ 0xbf

/-- The second byte leaves out overlong forms, surrogates and what is beyond the last character. -/
def isSecond (a b : UInt8) : Bool :=
  if a = 0xe0 then 0xa0 ≤ b && b ≤ 0xbf
  else if a = 0xed then 0x80 ≤ b && b ≤ 0x9f
  else if a = 0xf0 then 0x90 ≤ b && b ≤ 0xbf
  else if a = 0xf4 then 0x80 ≤ b && b ≤ 0x8f
  else isContinuation b

/-- A `Utf8Error`: where the first character begins that is none, and how many bytes are wrong in it unless
the end of the bytes cuts it off. -/
def utf8Error (index : Nat) : List UInt8 → Option (Nat × Option Nat)
  | [] => none
  | a :: rest =>
      match utf8Width a, rest with
      | 1, rest => utf8Error (index + 1) rest
      | 0, _ => some (index, some 1)
      | _, [] => some (index, none)
      | w, b :: rest =>
          if !isSecond a b then some (index, some 1)
          else if w = 2 then utf8Error (index + 2) rest
          else match rest with
            | [] => some (index, none)
            | c :: rest =>
                if !isContinuation c then some (index, some 2)
                else if w = 3 then utf8Error (index + 3) rest
                else match rest with
                  | [] => some (index, none)
                  | d :: rest =>
                      if !isContinuation d then some (index, some 3) else utf8Error (index + 4) rest

def utf8ErrorText (bytes : List UInt8) : String :=
  match utf8Error 0 bytes with
  | some (index, some n) => s!"invalid utf-8 sequence of {n} bytes from index {index}"
  | some (index, none) => s!"incomplete utf-8 byte sequence from index {index}"
  | none => ""

def string : Codec String :=
  (block "").mapM
    (fun bs => match String.fromUTF8? ⟨bs.toArray⟩ with
      | some s => .ok s
      | none => .error s!"string is not valid utf8: {utf8ErrorText bs}")
    (fun s => s.toUTF8.data.toList)
    (fun s => by simp [String.fromUTF8?, String.fromUTF8, s.isValidUTF8])

/-! ## Sizes -/

section
variable {c : Codec α} {d : Codec β} {g : β → α} {expected eof : String}

@[simp] theorem length_serialize_nat (w n : Nat) : ((nat w).serialize n).length = w := leBytes_length w n

@[simp] theorem length_serialize_pair (ab : α × β) :
    ((pair c d).serialize ab).length = (c.serialize ab.1).length + (d.serialize ab.2).length :=
  List.length_append

@[simp] theorem serialize_mapM {f hfg} (b : β) : (c.mapM f g hfg).serialize b = c.serialize (g b) := rfl

@[simp] theorem serialize_map {f hfg} (b : β) : (c.map f g hfg).serialize b = c.serialize (g b) := rfl

@[simp] theorem length_serialize_inl (a : α) :
    ((sum expected c d).serialize (.inl a)).length = (c.serialize a).length + 4 := by
  rw [Nat.add_comm, ← length_serialize_nat 4 0]
  exact List.length_append

@[simp] theorem length_serialize_inr (b : β) :
    ((sum expected c d).serialize (.inr b)).length = (d.serialize b).length + 4 := by
  rw [Nat.add_comm, ← length_serialize_nat 4 1]
  exact List.length_append

@[simp] theorem length_serialize_u64 (n : UInt64) : (u64.serialize n).length = 8 :=
  length_serialize_nat 8 n.toNat

@[simp] theorem length_serialize_block (xs : List UInt8) :
    ((block eof).serialize xs).length = xs.length + 8 := by
  rw [Nat.add_comm, ← length_serialize_nat 8 xs.length]
  exact List.length_append

@[simp] theorem length_serialize_bytes (xs : List UInt8) : (bytes.serialize xs).length = xs.length + 8 :=
  length_serialize_block xs

@[simp] theorem length_serialize_string (s : String) :
    (string.serialize s).length = s.utf8ByteSize + 8 := by
  simp [string]

end

end Codec
