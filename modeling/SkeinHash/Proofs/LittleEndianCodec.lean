import SkeinHash.LittleEndian
import Mathlib.Algebra.Group.Nat.Defs

/-!
# Reading and writing words

Reading and writing are inverse to each other: a buffer of eight bytes a word is the encoding of the
words that are read from it, and of no others. A buffer of any other length is written as far as it
goes, in the middle of a word if need be, and keeps what the words do not reach.

- `toNat_ofWordBytes_cons`: a word read from bytes, as a number
- `ofWordBytes_wordBytes`, `wordBytes_ofWordBytes`: one word
- `getElem?_lowBytes`, `getElem?_encode`: the bytes of words, by position
- `ofBytes?_eq_some_iff`: reading finds the words that were written, and refuses all else
- `getElem?_writeInto`: what stands where after words have been written over a buffer
-/

namespace SkeinHash.LittleEndian

/-! ## One word -/

/-- As a number, a word is its first byte and 256 times the word of the others. -/
theorem toNat_ofWordBytes_cons (b : UInt8) {bs : Bytes} (hfit : (ofWordBytes bs).toNat < 2 ^ 56) :
    (ofWordBytes (b :: bs)).toNat = 2 ^ 8 * (ofWordBytes bs).toNat + b.toNat := by
  have hb : b.toNat < 2 ^ 8 := b.toNat_lt
  -- The rest is below 2 to the 56, so shifting it by a byte loses nothing.
  have hshift : (ofWordBytes bs <<< 8).toNat = 2 ^ 8 * (ofWordBytes bs).toNat := by
    rw [UInt64.toNat_shiftLeft, Nat.shiftLeft_eq]
    change (ofWordBytes bs).toNat * 2 ^ 8 % 2 ^ 64 = _
    omega
  -- The byte and the shifted rest have no bit in common, so their union is their sum.
  have hor := Nat.two_pow_add_eq_or_of_lt hb (ofWordBytes bs).toNat
  rw [ofWordBytes, UInt64.toNat_or, hshift, UInt8.toNat_toUInt64, Nat.or_comm, ← hor]

/-- One byte more is eight bits more. -/
theorem two_pow_mul_succ (k : Nat) : 2 ^ (8 * (k + 1)) = 2 ^ 8 * 2 ^ (8 * k) := by
  rw [← Nat.pow_add, Nat.mul_succ, Nat.add_comm]

/-- A word read from at most eight bytes has no bits beyond them. -/
theorem toNat_ofWordBytes_lt {bs : Bytes} (hlen : bs.length ≤ 8) :
    (ofWordBytes bs).toNat < 2 ^ (8 * bs.length) := by
  induction bs with
  | nil => decide
  | cons b bs ih =>
    rw [List.length_cons] at hlen ⊢
    have hrest := ih (by omega)
    have hb : b.toNat < 2 ^ 8 := b.toNat_lt
    -- There are at most seven bytes behind the first, so shifting them by one byte loses nothing.
    have hfit : (ofWordBytes bs).toNat < 2 ^ 56 :=
      Nat.lt_of_lt_of_le hrest (Nat.pow_le_pow_right (by decide) (by omega))
    rw [toNat_ofWordBytes_cons b hfit, two_pow_mul_succ]
    omega

/-- Fewer than eight bytes leave room for one more. -/
theorem toNat_ofWordBytes_lt_of_length_lt {bs : Bytes} (hlen : bs.length < 8) :
    (ofWordBytes bs).toNat < 2 ^ 56 :=
  Nat.lt_of_lt_of_le (toNat_ofWordBytes_lt (by omega))
    (Nat.pow_le_pow_right (by decide) (by omega))

/-- The low-order bytes of a word hold it modulo what fits into them. -/
theorem toNat_ofWordBytes_lowBytes {k : Nat} (hk : k ≤ 8) (w : UInt64) :
    (ofWordBytes (lowBytes k w)).toNat = w.toNat % 2 ^ (8 * k) := by
  -- One byte at a time: the low byte is the word modulo 256, and the others are the low bytes of
  -- the quotient.
  induction k generalizing w with
  | zero => simp [lowBytes, ofWordBytes, Nat.mod_one]
  | succ k ih =>
    have hfit : (ofWordBytes (lowBytes k (w >>> 8))).toNat < 2 ^ 56 :=
      toNat_ofWordBytes_lt_of_length_lt (by rw [length_lowBytes]; omega)
    have hshift : (w >>> 8).toNat = w.toNat / 2 ^ 8 := by
      rw [UInt64.toNat_shiftRight, Nat.shiftRight_eq_div_pow]
      rfl
    have hlow : w.toUInt8.toNat = w.toNat % 2 ^ 8 := UInt64.toNat_toUInt8 w
    rw [lowBytes, toNat_ofWordBytes_cons _ hfit, ih (by omega), hshift, hlow,
      two_pow_mul_succ, Nat.mod_mul, Nat.add_comm]

/-- A word is read back from its bytes. -/
theorem ofWordBytes_wordBytes (w : UInt64) : ofWordBytes (wordBytes w) = w := by
  apply UInt64.toNat_inj.mp
  rw [wordBytes, toNat_ofWordBytes_lowBytes (Nat.le_refl 8)]
  exact Nat.mod_eq_of_lt w.toNat_lt

/-- The bytes of a word tell the word. -/
theorem wordBytes_inj {w w' : UInt64} (h : wordBytes w = wordBytes w') : w = w' := by
  rw [← ofWordBytes_wordBytes w, h, ofWordBytes_wordBytes]

/-- Bytes can be read back from their word, as many as there were. -/
theorem lowBytes_ofWordBytes {bs : Bytes} (hlen : bs.length ≤ 8) :
    lowBytes bs.length (ofWordBytes bs) = bs := by
  induction bs with
  | nil => rfl
  | cons b bs ih =>
    rw [List.length_cons] at hlen
    have hfit : (ofWordBytes bs).toNat < 2 ^ 56 := toNat_ofWordBytes_lt_of_length_lt (by omega)
    have hcons := toNat_ofWordBytes_cons b hfit
    have hb : b.toNat < 2 ^ 8 := b.toNat_lt
    -- The first byte is what the word leaves modulo 256, the others are the quotient.
    have hfirst : (ofWordBytes (b :: bs)).toUInt8 = b := by
      apply UInt8.toNat_inj.mp
      rw [UInt64.toNat_toUInt8, hcons]
      omega
    have hrest : ofWordBytes (b :: bs) >>> 8 = ofWordBytes bs := by
      apply UInt64.toNat_inj.mp
      rw [UInt64.toNat_shiftRight, Nat.shiftRight_eq_div_pow, hcons]
      change (2 ^ 8 * (ofWordBytes bs).toNat + b.toNat) / 2 ^ 8 = _
      omega
    -- Taking the word apart gives the first byte and, by induction, the rest.
    rw [List.length_cons, lowBytes, hfirst, hrest, ih (by omega)]

/-- Eight bytes are read back from their word. -/
theorem wordBytes_ofWordBytes {bs : Bytes} (hlen : bs.length = 8) :
    wordBytes (ofWordBytes bs) = bs := by
  have hlow := lowBytes_ofWordBytes (Nat.le_of_eq hlen)
  rwa [hlen] at hlow

/-- Byte `j` of a word is its place of weight 256 to the `j`. -/
theorem getElem?_lowBytes (k : Nat) (w : UInt64) (j : Nat) :
    (lowBytes k w)[j]? = if j < k then some (UInt8.ofNat (w.toNat / 256 ^ j)) else none := by
  induction k generalizing w j with
  | zero => simp [lowBytes]
  | succ k ih =>
    cases j with
    | zero => simp [lowBytes]
    | succ j =>
      -- Behind the first byte come those of the shifted word.
      have hshift : (w >>> 8).toNat = w.toNat / 256 := by
        rw [UInt64.toNat_shiftRight, Nat.shiftRight_eq_div_pow]
        rfl
      rw [lowBytes, List.getElem?_cons_succ, ih, hshift, Nat.div_div_eq_div_mul, ← Nat.pow_succ']
      simp only [Nat.succ_eq_add_one, Nat.add_lt_add_iff_right]

/-! ## Sequences of words -/

/-- Byte `k` of an encoding is byte `k % 8` of word `k / 8`. -/
theorem getElem?_encode (ws : List UInt64) (k : Nat) :
    (encode ws)[k]? = ws[k / 8]?.bind fun w => (wordBytes w)[k % 8]? := by
  induction ws generalizing k with
  | nil => simp [encode]
  | cons w ws ih =>
    have hcons : encode (w :: ws) = wordBytes w ++ encode ws := List.flatMap_cons
    rw [hcons]
    rcases Nat.lt_or_ge k 8 with hk | hk
    · rw [List.getElem?_append_left (by simpa using hk), Nat.div_eq_of_lt hk, Nat.mod_eq_of_lt hk]
      rfl
    · -- Behind the first word, positions are eight less and the words one less.
      obtain ⟨k, rfl⟩ := Nat.exists_eq_add_of_le hk
      have hdiv : (8 + k) / 8 = k / 8 + 1 := by omega
      rw [List.getElem?_append_right (by simp), length_wordBytes, Nat.add_sub_cancel_left, ih, hdiv,
        List.getElem?_cons_succ, Nat.add_mod_left]

section Words

variable {n : Nat}

/-- Word `i` is made of the eight bytes from position `8 * i` on. -/
theorem getElem_words (buffer : Vector UInt8 (8 * n)) {i : Nat} (hi : i < n) :
    (words buffer)[i] = ofWordBytes (List.ofFn fun j : Fin 8 => buffer[8 * i + j.val]) := by
  simp [words]

/-- The bytes of a buffer are read back from its words. -/
theorem encode_words (buffer : Vector UInt8 (8 * n)) :
    encode (words buffer).toList = buffer.toList := by
  apply List.ext_getElem?
  intro k
  rw [getElem?_encode, Vector.getElem?_toList, Vector.getElem?_toList]
  -- Inside the buffer byte `k` belongs to word `k / 8`; behind its end both sides have nothing.
  rcases Nat.lt_or_ge k (8 * n) with hk | hk
  · have hword : k / 8 < n := by omega
    have hplace : 8 * (k / 8) + k % 8 = k := Nat.div_add_mod k 8
    rw [Vector.getElem?_eq_getElem hword, Option.bind_some, getElem_words buffer hword,
      wordBytes_ofWordBytes (List.length_ofFn), Vector.getElem?_eq_getElem hk,
      List.getElem?_ofFn, dif_pos (Nat.mod_lt k (by decide))]
    simp only [hplace]
  · rw [Vector.getElem?_eq_none (by omega), Vector.getElem?_eq_none hk]
    rfl

/-- The words of a buffer tell its bytes. -/
theorem words_inj {a b : Vector UInt8 (8 * n)} (h : words a = words b) : a = b := by
  apply Vector.toList_inj.mp
  rw [← encode_words a, h, encode_words]

/-- The encoding of some words tells the words. -/
theorem encode_inj {a b : Vector UInt64 n} (h : encode a.toList = encode b.toList) : a = b := by
  apply Vector.ext
  intro i hi
  -- Words are equal if their bytes are, and these stand in the encoding.
  apply wordBytes_inj
  -- Byte `j` of word `i` stands at position `8 * i + j`.
  apply List.ext_getElem?
  intro j
  rcases Nat.lt_or_ge j 8 with hj | hj
  · have hbyte := congrArg (·[8 * i + j]?) h
    have hdiv : (8 * i + j) / 8 = i := by omega
    have hmod : (8 * i + j) % 8 = j := by omega
    simp only [getElem?_encode, Vector.getElem?_toList, hdiv, hmod, Vector.getElem?_eq_getElem hi,
      Option.bind_some] at hbyte
    exact hbyte
  · rw [List.getElem?_eq_none (by simpa using hj), List.getElem?_eq_none (by simpa using hj)]

/-- Reading gives exactly the words whose encoding the bytes are. -/
theorem ofBytes?_eq_some_iff {bytes : Bytes} {ws : Vector UInt64 n} :
    ofBytes? n bytes = some ws ↔ bytes = encode ws.toList := by
  -- Whatever has the right length is read, and its words encode it.
  have hread (hlen : bytes.length = 8 * n) :
      ∃ ws', ofBytes? n bytes = some ws' ∧ encode ws'.toList = bytes := by
    unfold ofBytes?
    rw [dif_pos hlen]
    exact ⟨_, rfl, encode_words _⟩
  constructor
  · intro h
    have hlen := (ofBytes?_isSome_iff n bytes).mp (by rw [h]; rfl)
    obtain ⟨ws', hread, hencode⟩ := hread hlen
    rw [Option.some.inj (h.symm.trans hread), hencode]
  · intro h
    obtain ⟨ws', hread, hencode⟩ := hread (by rw [h, length_encode, Vector.length_toList])
    rw [hread, encode_inj (hencode.trans h)]

/-- In a buffer that is just long enough, nothing is left but the encoding. -/
theorem writeInto_eq_encode (ws : Vector UInt64 n) {out : Bytes} (hlen : out.length = 8 * n) :
    writeInto ws.toList out = encode ws.toList := by
  have hencode : (encode ws.toList).length = out.length := by
    rw [length_encode, Vector.length_toList, hlen]
  simp only [writeInto]
  rw [List.take_of_length_le (Nat.le_of_eq hencode), hencode, List.drop_length, List.append_nil]

end Words

/-! ## Writing over a buffer -/

/-- A byte that has been written is a place of its word. -/
theorem getElem?_encode_eq_map (ws : List UInt64) (k : Nat) :
    (encode ws)[k]? = ws[k / 8]?.map fun w => UInt8.ofNat (w.toNat / 256 ^ (k % 8)) := by
  rw [getElem?_encode]
  cases ws[k / 8]? with
  | none => rfl
  | some w =>
    rw [Option.bind_some, wordBytes, getElem?_lowBytes, if_pos (Nat.mod_lt k (by decide))]
    rfl

/-- Words are written until they or the buffer come to an end, and what is behind them stays. -/
theorem getElem?_writeInto (ws : List UInt64) (out : Bytes) (i : Nat) :
    (writeInto ws out)[i]? =
      if i < min out.length (8 * ws.length) then
        ws[i / 8]?.map fun w => UInt8.ofNat (w.toNat / 256 ^ (i % 8))
      else out[i]? := by
  have hencode := length_encode ws
  have htake : ((encode ws).take out.length).length = min out.length (8 * ws.length) := by
    rw [List.length_take, hencode]
  simp only [writeInto]
  by_cases hi : i < min out.length (8 * ws.length)
  · rw [if_pos hi, List.getElem?_append_left (by omega), List.getElem?_take_of_lt (by omega),
      getElem?_encode_eq_map]
  · rw [if_neg hi, List.getElem?_append_right (by omega), List.getElem?_drop, htake, hencode]
    rcases Nat.lt_or_ge i out.length with hlt | hge
    · -- The words have ended, all of them written, and the old bytes follow at their places.
      rw [show 8 * ws.length + (i - min out.length (8 * ws.length)) = i by omega]
    · -- The buffer has ended, so neither side has a byte.
      rw [List.getElem?_eq_none hge, List.getElem?_eq_none (by omega)]

/-- **Reading and writing words is exact for every length.** Exactly the buffers of eight bytes a
    word can be read, and writing gives them back; what has been written is read back; and in a
    buffer of any length, byte `i` becomes the place `i % 8` of word `i / 8`, least significant
    first, as far as buffer and words both reach, and keeps its value behind them. -/
theorem codec_exact (n : Nat) :
    (∀ bytes, (ofBytes? n bytes).isSome ↔ bytes.length = 8 * n) ∧
    (∀ bytes ws out, ofBytes? n bytes = some ws → out.length = 8 * n →
      writeInto ws.toList out = bytes) ∧
    (∀ (ws : Vector UInt64 n) out, out.length = 8 * n →
      ofBytes? n (writeInto ws.toList out) = some ws) ∧
    ∀ ws out i, (writeInto ws out)[i]? =
      if i < min out.length (8 * ws.length) then
        ws[i / 8]?.map fun w => UInt8.ofNat (w.toNat / 256 ^ (i % 8))
      else out[i]? := by
  refine ⟨ofBytes?_isSome_iff n, fun bytes ws out hread hout => ?_, fun ws out hout => ?_,
    getElem?_writeInto⟩
  · rw [writeInto_eq_encode ws hout, ofBytes?_eq_some_iff.mp hread]
  · rw [ofBytes?_eq_some_iff, writeInto_eq_encode ws hout]

/-- Two words over sixteen bytes, the same words over eleven, where the second is cut, and one of
    them over eleven, where three bytes stay. -/
theorem codec_exact_partial_word :
    let ws : Vector UInt64 2 := #v[0x0807060504030201, 0x1817161514131211]
    let bytes : Bytes := [1, 2, 3, 4, 5, 6, 7, 8, 0x11, 0x12, 0x13, 0x14, 0x15, 0x16, 0x17, 0x18]
    let out : Bytes := List.replicate 16 0xff
    let short : Bytes := List.replicate 11 0xff
    (ofBytes? 2 bytes = some ws ∧ out.length = 8 * 2) ∧
    writeInto ws.toList out = bytes ∧ ofBytes? 2 (writeInto ws.toList out) = some ws ∧
    (writeInto ws.toList short)[10]? = some 0x13 ∧ (writeInto [ws[0]] short)[10]? = some 0xff := by
  intro ws bytes out short
  have hread : ofBytes? 2 bytes = some ws := by decide
  have hout : out.length = 8 * 2 := by decide
  obtain ⟨-, hwrite, hback, hplaces⟩ := codec_exact 2
  -- The short buffer ends inside the second word; with one word only, its end is not reached.
  refine ⟨⟨hread, hout⟩, hwrite bytes ws out hread hout, hback ws out hout, ?_, ?_⟩
  · rw [hplaces]
    decide
  · rw [hplaces]
    decide

end SkeinHash.LittleEndian
