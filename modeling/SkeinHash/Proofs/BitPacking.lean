import SkeinHash.Bits

/-!
# Bit strings in bytes

Packing and unpacking, by position: which bit of which byte holds which bit of a string. Strings
that end on a byte boundary are packed piece by piece, and the leading bits of a byte string are
whole bytes followed by at most one partial byte.

- `testBit_packByte`, `take_ofByte_packByte`: the bits of a packed byte
- `pack_append`, `pack_ofBytes`: packing piece by piece
- `leading_eq_of_partial`: the leading bits of a byte string that end inside a byte
- `leading_pack`: packed bits can be read back
-/

namespace SkeinHash.Bits

/-! ## One byte -/

/-- Doubling and adding moves the bit that came first into the highest place. -/
theorem testBit_foldl_double (f : Nat → Bool) (k j : Nat) :
    ((List.range k).foldl (fun n i => 2 * n + (f i).toNat) 0).testBit j =
      (decide (j < k) && f (k - 1 - j)) := by
  induction k generalizing j with
  | zero => simp
  | succ k ih =>
    -- The last step puts its bit into place 0 and moves all others up by one.
    rw [List.range_succ, List.foldl_append, List.foldl_cons, List.foldl_nil]
    have hbit := Bool.toNat_le (f k)
    -- Place 0 holds the bit that came last, the others are as before the step.
    cases j with
    | zero =>
      rw [Nat.testBit_zero, Nat.mul_add_mod]
      cases h : f k <;> simp [h]
    | succ j =>
      rw [Nat.testBit_succ, Nat.mul_add_div (by decide), Nat.div_eq_of_lt (by omega), Nat.add_zero,
        ih, show k + 1 - 1 - (j + 1) = k - 1 - j by omega]
      simp

/-- The first bit of a packed byte stands in the most significant place. -/
theorem testBit_packByte (bits : Bits) {j : Nat} (hj : j < 8) :
    (packByte bits).toNat.testBit j = bits[7 - j]?.getD false := by
  unfold packByte
  rw [UInt8.toNat_ofNat', Nat.testBit_mod_two_pow,
    testBit_foldl_double (fun i => bits[i]?.getD false)]
  simp [hj]

/-- Bytes are told apart by their eight bits. -/
theorem eq_of_testBit {x y : UInt8} (h : ∀ j < 8, x.toNat.testBit j = y.toNat.testBit j) :
    x = y := by
  apply UInt8.toNat_inj.mp
  apply Nat.eq_of_testBit_eq
  intro j
  by_cases hj : j < 8
  · exact h j hj
  · -- beyond the eight bits of a byte there are only zeros
    have hpow : 2 ^ 8 ≤ 2 ^ j := Nat.pow_le_pow_right (by decide) (by omega)
    rw [Nat.testBit_lt_two_pow (Nat.lt_of_lt_of_le x.toNat_lt hpow),
      Nat.testBit_lt_two_pow (Nat.lt_of_lt_of_le y.toNat_lt hpow)]

/-- A packed byte depends on eight bits only. -/
theorem packByte_congr {a b : Bits} (h : ∀ i < 8, a[i]? = b[i]?) : packByte a = packByte b := by
  apply eq_of_testBit
  intro j hj
  rw [testBit_packByte a hj, testBit_packByte b hj, h _ (by omega)]

/-- Bit `i` of a byte, from the most significant one, stands in place `7 - i`. -/
theorem getElem?_ofByte (b : UInt8) {i : Nat} (hi : i < 8) :
    (ofByte b)[i]? = some (b.toNat.testBit (7 - i)) := by
  simp [ofByte, hi]

/-- The bits that were packed into a byte are its leading ones. -/
theorem take_ofByte_packByte {bits : Bits} (hlen : bits.length ≤ 8) :
    (ofByte (packByte bits)).take bits.length = bits := by
  apply List.ext_getElem?
  intro i
  rw [List.getElem?_take]
  -- Inside the string bit `i` is found where it was packed, and behind its end both sides stop.
  by_cases hi : i < bits.length
  · rw [if_pos hi, getElem?_ofByte _ (by omega), testBit_packByte _ (by omega),
      show 7 - (7 - i) = i by omega, List.getElem?_eq_getElem hi, Option.getD_some]
  · rw [if_neg hi, List.getElem?_eq_none (by omega)]

/-- Setting the bit behind the `v` leading ones and clearing the rest leaves the leading bits, a one
    bit and zeros. -/
theorem marker_eq_packByte (last : UInt8) {v : Nat} (hpos : 1 ≤ v) (hlt : v ≤ 7) :
    (last &&& -((0x80 : UInt8) >>> UInt8.ofNat v)) ||| ((0x80 : UInt8) >>> UInt8.ofNat v) =
      packByte ((ofByte last).take v ++ [true]) := by
  -- The marker is a one at its place, and its negation keeps everything from there on.
  have hmarker : ∀ k : Fin 7, ∀ j : Fin 8,
      ((0x80 : UInt8) >>> UInt8.ofNat (k + 1)).toNat.testBit j = decide (j + k.val = 6) ∧
      (-((0x80 : UInt8) >>> UInt8.ofNat (k + 1))).toNat.testBit j = decide (6 ≤ j + k.val) := by
    decide
  apply eq_of_testBit
  intro j hj
  have hj' := hmarker ⟨v - 1, by omega⟩ ⟨j, hj⟩
  simp only [Nat.sub_add_cancel hpos] at hj'
  rw [UInt8.toNat_or, UInt8.toNat_and, Nat.testBit_or, Nat.testBit_and, hj'.1, hj'.2,
    testBit_packByte _ hj]
  have hlen : ((ofByte last).take v).length = v := by
    rw [List.length_take, length_ofByte]
    omega
  -- Where the place stands to the marker decides which part of the byte it is in.
  rcases Nat.lt_trichotomy (7 - j) v with h | h | h
  · -- a leading bit
    rw [List.getElem?_append_left (by omega), List.getElem?_take, if_pos h,
      getElem?_ofByte _ (by omega), show 7 - (7 - j) = j by omega]
    simp [show 6 ≤ j + (v - 1) by omega, show j + (v - 1) ≠ 6 by omega]
  · -- the bit that is set
    rw [List.getElem?_append_right (by omega), hlen, h, Nat.sub_self]
    simp [show j + (v - 1) = 6 by omega]
  · -- a bit that is cleared
    rw [List.getElem?_eq_none (by rw [List.length_append, hlen, List.length_singleton]; omega)]
    simp [show ¬ 6 ≤ j + (v - 1) by omega, show j + (v - 1) ≠ 6 by omega]

/-! ## Byte strings -/

/-- Up to eight bits are packed into one byte. -/
theorem pack_of_length_le {bits : Bits} (hpos : 0 < bits.length) (hle : bits.length ≤ 8) :
    pack bits = [packByte bits] := by
  -- One byte is as much as the bits need, so there is one element in the range.
  have hcount : byteCount bits.length = 1 := by
    rw [byteCount_eq]
    omega
  unfold pack
  rw [hcount]
  rfl

/-- Behind a byte boundary, packing starts afresh. -/
theorem pack_append {a : Bits} (halign : a.length % 8 = 0) (b : Bits) :
    pack (a ++ b) = pack a ++ pack b := by
  -- On a byte boundary the numbers of bytes add up.
  have hcount : byteCount (a ++ b).length = byteCount a.length + byteCount b.length := by
    rw [List.length_append, byteCount_eq, byteCount_eq, byteCount_eq]
    omega
  have ha : 8 * byteCount a.length = a.length := by
    rw [byteCount_eq]
    omega
  unfold pack
  rw [hcount, List.range_add, List.map_append, List.map_map]
  congr 1
  · -- the first bytes lie inside of `a`
    apply List.map_congr_left
    intro i hi
    have hi := List.mem_range.mp hi
    apply packByte_congr
    intro k hk
    rw [List.getElem?_drop, List.getElem?_drop, List.getElem?_append_left (by omega)]
  · -- the others begin behind it
    apply List.map_congr_left
    intro i _
    rw [Function.comp_apply, Nat.mul_add, ha, List.drop_length_add_append]

theorem ofBytes_cons (b : UInt8) (data : Bytes) :
    ofBytes (b :: data) = ofByte b ++ ofBytes data := by
  simp [ofBytes]

/-- Whole bytes are packed as they were. -/
theorem pack_ofBytes (data : Bytes) : pack (ofBytes data) = data := by
  induction data with
  | nil => rfl
  | cons b data ih =>
    rw [ofBytes_cons, pack_append (by rw [length_ofByte]), ih,
      pack_of_length_le (by simp) (by simp), packByte_ofByte, List.singleton_append]

/-! ## Leading bits -/

/-- Eight bits a byte: leading bytes hold the leading bits. -/
theorem take_ofBytes (data : Bytes) (k : Nat) :
    (ofBytes data).take (8 * k) = ofBytes (data.take k) := by
  -- Beyond the end of the data both sides are all of it.
  by_cases hk : k ≤ data.length
  · have hlen : (ofBytes (data.take k)).length = 8 * k := by
      rw [length_ofBytes, List.length_take_of_le hk]
    calc (ofBytes data).take (8 * k)
        = (ofBytes (data.take k) ++ ofBytes (data.drop k)).take (8 * k) := by
          rw [← ofBytes_append, List.take_append_drop]
      _ = ofBytes (data.take k) := List.take_left' hlen
  · rw [List.take_of_length_le (by rw [length_ofBytes]; omega), List.take_of_length_le (by omega)]

/-- Leading bits that end on a byte boundary are whole bytes. -/
theorem leading_of_aligned (data : Bytes) {n : Nat} (halign : n % 8 = 0) :
    leading data n = ofBytes (data.take (byteCount n)) := by
  rw [← take_ofBytes, leading, byteCount_eq]
  congr 1
  omega

/-- Leading bits that end inside a byte are whole bytes and the leading bits of the next one. -/
theorem leading_eq_of_partial {data : Bytes} {n : Nat} (hpartial : n % 8 ≠ 0)
    (hlen : n ≤ 8 * data.length) : ∃ last : UInt8,
      data.take (byteCount n) = data.take (n / 8) ++ [last] ∧
      leading data n = ofBytes (data.take (n / 8)) ++ (ofByte last).take (n % 8) := by
  have hlast : n / 8 < data.length := by omega
  have hcount : byteCount n = n / 8 + 1 := by
    rw [byteCount_eq]
    omega
  have hwhole : (ofBytes (data.take (n / 8))).length = 8 * (n / 8) := by
    rw [length_ofBytes, List.length_take_of_le (by omega)]
  have hsplit : data = data.take (n / 8) ++ data[n / 8] :: data.drop (n / 8 + 1) := by
    rw [← List.drop_eq_getElem_cons hlast, List.take_append_drop]
  refine ⟨data[n / 8], ?_, ?_⟩
  · rw [hcount, List.take_append_getElem hlast]
  · -- The bits of the byte strings are cut behind the whole bytes, and then inside the next byte.
    let whole := ofBytes (data.take (n / 8))
    calc leading data n
        = (whole ++ ofBytes (data[n / 8] :: data.drop (n / 8 + 1))).take n := by
          rw [← ofBytes_append, ← hsplit, leading]
      _ = (whole ++ ofBytes (data[n / 8] :: data.drop (n / 8 + 1))).take
            (whole.length + n % 8) := by
          rw [hwhole, Nat.div_add_mod]
      _ = whole ++ (ofByte data[n / 8]).take (n % 8) := by
          rw [List.take_length_add_append, ofBytes_cons,
            List.take_append_of_le_length (by rw [length_ofByte]; omega)]

/-- Bits that are packed are the leading ones of their bytes. -/
theorem leading_pack (bits : Bits) : leading (pack bits) bits.length = bits := by
  -- On the number of bits: one byte is taken off, and the rest is shorter.
  induction hn : bits.length using Nat.strongRecOn generalizing bits with
  | ind n ih =>
    subst hn
    rcases Nat.eq_zero_or_pos bits.length with hzero | hpos
    · rw [List.eq_nil_of_length_eq_zero hzero]
      rfl
    by_cases hle : bits.length ≤ 8
    · rw [pack_of_length_le hpos hle, leading, ofBytes_cons]
      exact (List.take_append_of_le_length (by rw [length_ofByte]; omega)).trans
        (take_ofByte_packByte hle)
    · -- The first eight bits fill a byte, and the rest is packed behind it.
      have hfirst : (bits.take 8).length = 8 := List.length_take_of_le (by omega)
      have hrest : (bits.drop 8).length = bits.length - 8 := List.length_drop
      have hbyte : ofByte (packByte (bits.take 8)) = bits.take 8 := by
        have htake := take_ofByte_packByte (Nat.le_of_eq hfirst)
        rwa [hfirst, List.take_of_length_le (Nat.le_of_eq (length_ofByte _))] at htake
      have hpack : pack bits = packByte (bits.take 8) :: pack (bits.drop 8) := by
        conv => lhs; rw [← List.take_append_drop 8 bits]
        rw [pack_append (by omega), pack_of_length_le (by omega) (by omega),
          List.singleton_append]
      calc leading (pack bits) bits.length
          = (bits.take 8 ++ ofBytes (pack (bits.drop 8))).take
              ((bits.take 8).length + (bits.length - 8)) := by
            rw [hpack, leading, ofBytes_cons, hbyte, hfirst,
              Nat.add_sub_cancel' (Nat.le_of_not_le hle)]
        _ = bits.take 8 ++ leading (pack (bits.drop 8)) (bits.length - 8) :=
            List.take_length_add_append _
        _ = bits := by
            rw [← hrest, ih _ (by omega) _ rfl, List.take_append_drop]

end SkeinHash.Bits
