import OmniMesh.Lib.Codec

/-!
# Length-prefixed frames

A frame is its length, as `w` big-endian bytes, and its data. The reader is incremental: it takes what
is available, and either completes a frame or stays pending with what it has taken.
-/

namespace Frame

variable {w : Nat}

def beBytes (w n : Nat) : List UInt8 := (Codec.leBytes w n).reverse

def beNat (bytes : List UInt8) : Nat := Codec.leNat bytes.reverse

@[simp] theorem beBytes_length (w n : Nat) : (beBytes w n).length = w := by
  rw [beBytes, List.length_reverse, Codec.leBytes_length]

theorem beNat_beBytes {n} (h : n < 256 ^ w) : beNat (beBytes w n) = n := by
  rw [beNat, beBytes, List.reverse_reverse, Codec.leNat_leBytes h]

theorem beBytes_beNat {bytes} (h : bytes.length = w) : beBytes w (beNat bytes) = bytes := by
  have := Codec.leBytes_leNat bytes.reverse
  rw [List.length_reverse, h] at this
  rw [beBytes, beNat, this, List.reverse_reverse]

theorem beNat_lt {bytes} (h : bytes.length = w) : beNat bytes < 256 ^ w := by
  have := Codec.leNat_lt bytes.reverse
  rwa [List.length_reverse, h] at this

/-- The length wraps around when it does not fit `w` bytes. -/
def encode (w : Nat) (data : List UInt8) : List UInt8 := beBytes w data.length ++ data

theorem encode_inj {f g x y} (hf : f.length < 256 ^ w) (hg : g.length < 256 ^ w)
    (h : encode w f ++ x = encode w g ++ y) : f = g ∧ x = y := by
  simp only [encode, List.append_assoc] at h
  obtain ⟨hlen, hrest⟩ := List.append_inj h (by simp)
  have : f.length = g.length := by
    rw [← beNat_beBytes hf, hlen, beNat_beBytes hg]
  exact List.append_inj hrest this

theorem ne_encode_of_lt {x f y} (h : x.length < w) : x ≠ encode w f ++ y := by
  intro he
  have hl := congrArg List.length he
  simp only [encode, List.length_append, beBytes_length] at hl
  omega

/-! ## The incremental reader -/

inductive Reader
  | header (got : List UInt8)
  | body (len : Nat) (got : List UInt8)
  deriving DecidableEq

inductive Poll
  | pending (reader : Reader)
  | ready (frame : List UInt8)

namespace Reader

def readBody (len : Nat) (got available : List UInt8) : Poll × List UInt8 :=
  let more := available.take (len - got.length)
  let rest := available.drop (len - got.length)
  if (got ++ more).length = len then (.ready (got ++ more), rest)
  else (.pending (.body len (got ++ more)), rest)

def poll (w : Nat) (self : Reader) (available : List UInt8) : Poll × List UInt8 :=
  match self with
  | .header got =>
      let more := available.take (w - got.length)
      let rest := available.drop (w - got.length)
      if (got ++ more).length = w then readBody (beNat (got ++ more)) [] rest
      else (.pending (.header (got ++ more)), rest)
  | .body len got => readBody len got available

/-- The bytes taken since the last complete frame. -/
def consumed (w : Nat) : Reader → List UInt8
  | .header got => got
  | .body len got => beBytes w len ++ got

def Pending (w : Nat) : Reader → Prop
  | .header got => got.length < w
  | .body len got => len < 256 ^ w ∧ got.length < len

end Reader

/-- The outcomes of a poll: no byte is lost, and a pending reader has taken everything. -/
inductive Polls (w : Nat) (r : Reader) (available : List UInt8) : Poll × List UInt8 → Prop
  | pending {r'} : r'.Pending w → r.consumed w ++ available = r'.consumed w →
      Polls w r available (.pending r', [])
  | ready {frame rest} : frame.length < 256 ^ w →
      r.consumed w ++ available = encode w frame ++ rest → Polls w r available (.ready frame, rest)

theorem Polls.congr {r r' a a' out} (h : Polls w r a out)
    (he : r'.consumed w ++ a' = r.consumed w ++ a) : Polls w r' a' out := by
  cases h with
  | pending hp hc => exact .pending hp (he.trans hc)
  | ready hl hc => exact .ready hl (he.trans hc)

/-- Taking up to `n` bytes in all either completes `n` bytes or takes everything. -/
theorem take_more {n : Nat} {got : List UInt8} (available : List UInt8) (h : got.length ≤ n) :
    (got ++ available.take (n - got.length)).length = n ∨
      ((got ++ available.take (n - got.length)).length < n ∧
        available.take (n - got.length) = available ∧ available.drop (n - got.length) = []) := by
  rw [List.length_append, List.length_take]
  by_cases hle : n - got.length ≤ available.length
  · left
    omega
  · right
    exact ⟨by omega, List.take_of_length_le (by omega), List.drop_eq_nil_of_le (by omega)⟩

theorem readBody_polls {len got} (available : List UInt8) (hlen : len < 256 ^ w)
    (hgot : got.length ≤ len) :
    Polls w (.body len got) available (Reader.readBody len got available) := by
  unfold Reader.readBody
  dsimp only
  split
  · rename_i hfull
    refine .ready (lt_of_eq_of_lt hfull hlen) ?_
    rw [encode, hfull, Reader.consumed, List.append_assoc, List.append_assoc, List.append_assoc,
      List.take_append_drop]
  · rename_i hfull
    rcases take_more available hgot with h | ⟨hlt, htake, hdrop⟩
    · exact absurd h hfull
    · rw [hdrop]
      refine .pending ⟨hlen, hlt⟩ ?_
      rw [Reader.consumed, Reader.consumed, htake, List.append_assoc]

theorem poll_polls {r : Reader} (available : List UInt8) (h : r.Pending w) :
    Polls w r available (r.poll w available) := by
  cases r with
  | header got =>
      unfold Reader.poll
      dsimp only
      have hgot : got.length ≤ w := Nat.le_of_lt h
      split
      · rename_i hfull
        refine (readBody_polls _ (beNat_lt hfull) (Nat.zero_le _)).congr ?_
        rw [Reader.consumed, Reader.consumed, beBytes_beNat hfull, List.append_nil,
          List.append_assoc, List.take_append_drop]
      · rename_i hfull
        rcases take_more available hgot with hw | ⟨hlt, htake, hdrop⟩
        · exact absurd hw hfull
        · rw [hdrop]
          exact .pending hlt (by rw [Reader.consumed, Reader.consumed, htake])
  | body len got =>
      exact readBody_polls available h.1 (Nat.le_of_lt h.2)

theorem Reader.Pending.poll_pending {r r' : Reader} {available rest} (h : r.Pending w)
    (hpoll : r.poll w available = (.pending r', rest)) :
    r'.Pending w ∧ rest = [] ∧ r.consumed w ++ available = r'.consumed w := by
  have hpolls := poll_polls available h
  rw [hpoll] at hpolls
  cases hpolls with
  | pending hp hc => exact ⟨hp, rfl, hc⟩

theorem Reader.Pending.poll_ready {r : Reader} {frame available rest} (h : r.Pending w)
    (hpoll : r.poll w available = (.ready frame, rest)) :
    frame.length < 256 ^ w ∧ r.consumed w ++ available = encode w frame ++ rest := by
  have hpolls := poll_polls available h
  rw [hpoll] at hpolls
  cases hpolls with
  | ready hf hc => exact ⟨hf, hc⟩

theorem Reader.Pending.no_frame {r : Reader} (h : r.Pending w) {f rest} (hf : f.length < 256 ^ w) :
    r.consumed w ≠ encode w f ++ rest := by
  cases r with
  | header got => exact ne_encode_of_lt h
  | body len got =>
      intro he
      simp only [Reader.consumed, encode, List.append_assoc] at he
      obtain ⟨hlen, hgot⟩ := List.append_inj he (by simp)
      have hn : len = f.length := by rw [← beNat_beBytes h.1, hlen, beNat_beBytes hf]
      have hl := congrArg List.length hgot
      rw [List.length_append] at hl
      have := h.2
      omega

theorem Reader.Pending.rest_lt {r : Reader} (h : r.Pending w) {f available rest}
    (hf : f.length < 256 ^ w) (he : r.consumed w ++ available = encode w f ++ rest) :
    rest.length < available.length := by
  rcases List.append_eq_append_iff.mp he with ⟨more, henc, hav⟩ | ⟨more, hcons, _⟩
  · have hmore : more ≠ [] := by
      rintro rfl
      rw [List.append_nil] at henc
      exact h.no_frame hf (henc.symm.trans (List.append_nil _).symm)
    have := List.length_pos_iff.mpr hmore
    rw [hav, List.length_append]
    omega
  · exact absurd hcons (h.no_frame hf)

/-! ## Streams of frames -/

/-- The frames a stream starts with, as many as are complete, and the rest. -/
structure Splits (w : Nat) (stream : List UInt8) (frames : List (List UInt8)) (rest : List UInt8) :
    Prop where
  fits : ∀ frame ∈ frames, frame.length < 256 ^ w
  stream_eq : stream = frames.flatMap (encode w) ++ rest
  no_frame : ∀ frame tail, frame.length < 256 ^ w → rest ≠ encode w frame ++ tail

theorem Splits.cons {stream frames rest frame} (h : Splits w stream frames rest)
    (hf : frame.length < 256 ^ w) : Splits w (encode w frame ++ stream) (frame :: frames) rest where
  fits := by simpa using ⟨hf, h.fits⟩
  stream_eq := by rw [h.stream_eq, List.flatMap_cons, List.append_assoc]
  no_frame := h.no_frame

theorem Splits.tail {stream frame frames rest} (h : Splits w stream (frame :: frames) rest) :
    Splits w (frames.flatMap (encode w) ++ rest) frames rest :=
  ⟨fun f hf => h.fits f (List.mem_cons_of_mem _ hf), rfl, h.no_frame⟩

theorem Splits.unique {stream frames frames' rest rest'} (h : Splits w stream frames rest)
    (h' : Splits w stream frames' rest') : frames = frames' ∧ rest = rest' := by
  have heq := h.stream_eq.symm.trans h'.stream_eq
  induction frames generalizing stream frames' with
  | nil =>
      cases frames' with
      | nil => exact ⟨rfl, heq⟩
      | cons g gs =>
          rw [List.flatMap_cons, List.append_assoc] at heq
          exact absurd heq (h.no_frame g _ (h'.fits g List.mem_cons_self))
  | cons f fs ih =>
      cases frames' with
      | nil =>
          rw [List.flatMap_cons, List.append_assoc] at heq
          exact absurd heq.symm (h'.no_frame f _ (h.fits f List.mem_cons_self))
      | cons g gs =>
          rw [List.flatMap_cons, List.flatMap_cons, List.append_assoc, List.append_assoc] at heq
          obtain ⟨rfl, htail⟩ :=
            encode_inj (h.fits f List.mem_cons_self) (h'.fits g List.mem_cons_self) heq
          obtain ⟨rfl, hrest⟩ := ih h.tail (htail ▸ h'.tail) htail
          exact ⟨rfl, hrest⟩

theorem exists_splits (hw : 0 < w) (stream : List UInt8) : ∃ frames rest, Splits w stream frames rest := by
  induction h : stream.length using Nat.strongRecOn generalizing stream with
  | ind n ih =>
      -- the reader says whether a frame is complete
      have hpolls := poll_polls (r := .header []) stream hw
      generalize Reader.poll w (.header []) stream = out at hpolls
      cases hpolls with
      | pending hp hc =>
          rw [Reader.consumed, List.nil_append] at hc
          refine ⟨[], stream, by simp, rfl, fun frame tail hf => ?_⟩
          rw [hc]
          exact hp.no_frame hf
      | @ready frame rest hf hc =>
          rw [Reader.consumed, List.nil_append] at hc
          subst hc
          have hlt : rest.length < n := by
            simp only [encode, List.length_append, beBytes_length] at h
            omega
          obtain ⟨frames, rest', hs⟩ := ih _ hlt rest rfl
          exact ⟨frame :: frames, rest', hs.cons hf⟩

end Frame
