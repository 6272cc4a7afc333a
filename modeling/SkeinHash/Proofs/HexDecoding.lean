import SkeinHash.Digest
import SkeinHash.Proofs.DataLineReading

/-!
# Hexadecimal text and its bytes

Which texts can be decoded, to which bytes, and what the others are refused for, said by the places
of the digits in their row and without going through the text pair by pair. Written digits are read
back, and the reader of data lines, which skips spacing and counts its room, reads a text without
spacing as decoding does.

- `decodeBytes_eq`: decoding in one equation
- `decode_eq_ok_iff_of_map_toLower`: the case of letters makes no difference
- `decode_encode`: what is written is read back
- `KnownAnswer.dataLine_iff_decodeBytes`: data lines without spacing
- `hex_decoding_exact`: all of this together
-/

namespace SkeinHash.Text.Hex

/-! ## Decoding pairs -/

/-- The bytes that digits stand for, two a byte, the digits being given by their values. -/
def joinPairs (values : List Nat) : Bytes :=
  (List.range (values.length / 2)).map fun i =>
    UInt8.ofNat (16 * values.getD (2 * i) 0 + values.getD (2 * i + 1) 0)

/-- The first two digits make the first byte. -/
theorem joinPairs_cons_cons (hi lo : Nat) (rest : List Nat) :
    joinPairs (hi :: lo :: rest) = UInt8.ofNat (16 * hi + lo) :: joinPairs rest := by
  have hhalf : (hi :: lo :: rest).length / 2 = rest.length / 2 + 1 := by
    simp only [List.length_cons]
    omega
  rw [joinPairs, hhalf, List.range_succ_eq_map, List.map_cons, List.map_map]
  -- Behind the first pair, positions are two more than in the rest.
  rfl

/-- Decoding looks for the first byte that is no digit, and puts the digits together if there is
    none. -/
theorem decodePairs_eq {text : Bytes} (heven : text.length % 2 = 0) :
    decodePairs text =
      match text.find? fun b => ¬ IsDigit b with
      | some b => .error (.badDigit b)
      | none => .ok (joinPairs (text.map place)) := by
  -- Decoding goes pair by pair and looks at the high digit first, so the first pair that fails has
  -- the first byte that is no digit in it.
  induction text using decodePairs.induct with
  | case1 hi lo rest hnone =>
    have hhi := digitValue?_eq_none_iff.mp hnone
    simp [decodePairs, hnone, hhi]
  | case2 hi lo rest _ hnone hsome =>
    obtain ⟨hhi, -⟩ := digitValue?_eq_some_iff.mp hsome
    have hlo := digitValue?_eq_none_iff.mp hnone
    simp [decodePairs, hsome, hnone, hhi, hlo]
  | case3 hi lo rest _ _ hlow hhigh ih =>
    obtain ⟨hhi, rfl⟩ := digitValue?_eq_some_iff.mp hhigh
    obtain ⟨hlo, rfl⟩ := digitValue?_eq_some_iff.mp hlow
    have hrest := ih (by simp only [List.length_cons] at heven; omega)
    have hbyte := ofNat_mul_or ((isDigit_iff hi).mp hhi) ((isDigit_iff lo).mp hlo)
    rw [decodePairs, hhigh, hlow]
    simp only [List.map_cons, joinPairs_cons_cons, hbyte, hrest]
    -- Two digits change nothing about the first byte that is none.
    simp only [List.find?_cons, hhi, hlo, not_true_eq_false, decide_false]
    cases rest.find? fun b => ¬ IsDigit b <;> rfl
  | case4 => simp at heven
  | case5 => rfl

section Bytes

variable {text data : Bytes}

/-- The search for what is no digit fails if there are digits only. -/
theorem find?_not_isDigit_eq_none_iff :
    (text.find? fun b => ¬ IsDigit b) = none ↔ ∀ b ∈ text, IsDigit b := by
  simp

/-- Decoding in one equation: the number of bytes is looked at first, and then the digits. -/
theorem decodeBytes_eq (text : Bytes) :
    decodeBytes text =
      if text.length % 2 = 0 then
        match text.find? fun b => ¬ IsDigit b with
        | some b => .error (.badDigit b)
        | none => .ok (joinPairs (text.map place))
      else .error .oddLength := by
  unfold decodeBytes
  split
  · next heven => exact decodePairs_eq heven
  · rfl

/-- Digits that are even in number are decoded, and nothing else is. -/
theorem decodeBytes_eq_ok_iff :
    decodeBytes text = .ok data ↔
      text.length % 2 = 0 ∧ (∀ b ∈ text, IsDigit b) ∧ data = joinPairs (text.map place) := by
  rw [decodeBytes_eq, ← find?_not_isDigit_eq_none_iff]
  split
  · next heven => cases text.find? fun b => ¬ IsDigit b <;> simp [heven, eq_comm]
  · next hodd => simp [hodd]

/-- An odd number of bytes is an error of its own, whatever the bytes are. -/
theorem decodeBytes_eq_oddLength_iff :
    decodeBytes text = .error .oddLength ↔ text.length % 2 = 1 := by
  rw [decodeBytes_eq]
  split
  · next heven => cases text.find? fun b => ¬ IsDigit b <;> simp [heven]
  · next hodd => simp [show text.length % 2 = 1 by omega]

/-- The error names the first byte that is no digit. -/
theorem decodeBytes_eq_badDigit_iff {b : UInt8} :
    decodeBytes text = .error (.badDigit b) ↔
      text.length % 2 = 0 ∧ (text.find? fun b => ¬ IsDigit b) = some b := by
  rw [decodeBytes_eq]
  split
  · next heven => cases text.find? fun b => ¬ IsDigit b <;> simp [heven]
  · next hodd => simp [hodd]

/-- Decoded data has half the length of its text. -/
theorem length_of_decodeBytes (h : decodeBytes text = .ok data) :
    2 * data.length = text.length := by
  obtain ⟨heven, -, rfl⟩ := decodeBytes_eq_ok_iff.mp h
  simp only [joinPairs, List.length_map, List.length_range]
  omega

end Bytes

/-! ## Texts -/

/-- An ASCII character is a byte. -/
theorem utf8EncodeChar_of_lt {c : Char} (h : c.toNat < 128) :
    String.utf8EncodeChar c = [UInt8.ofNat c.toNat] :=
  if_pos (show c.val.toNat ≤ 127 from Nat.le_of_lt_succ h)

/-- The bytes of a character beyond ASCII are beyond ASCII. -/
theorem le_of_mem_utf8EncodeChar {c : Char} (h : 128 ≤ c.toNat) {b : UInt8}
    (hb : b ∈ String.utf8EncodeChar c) : 128 ≤ b.toNat := by
  have hc : ¬ c.val.toNat ≤ 127 := Nat.not_le.mpr h
  simp only [String.utf8EncodeChar, if_neg hc] at hb
  -- The bytes of two, three or four byte characters all have their high bit set.
  split at hb
  · simp only [List.mem_cons, List.not_mem_nil, or_false] at hb
    rcases hb with rfl | rfl <;> simp only [UInt8.toNat_ofNat'] <;> omega
  · split at hb
    · simp only [List.mem_cons, List.not_mem_nil, or_false] at hb
      rcases hb with rfl | rfl | rfl <;> simp only [UInt8.toNat_ofNat'] <;> omega
    · simp only [List.mem_cons, List.not_mem_nil, or_false] at hb
      rcases hb with rfl | rfl | rfl | rfl <;> simp only [UInt8.toNat_ofNat'] <;> omega

/-- A letter and its small letter have the same place. -/
theorem map_place_toLower (c : Char) :
    (String.utf8EncodeChar c.toLower).map place = (String.utf8EncodeChar c).map place := by
  rcases Nat.lt_or_ge c.toNat 128 with h | h
  · have all : ∀ n : Fin 128, (Char.ofNat n).toLower.toNat < 128 ∧
        small (UInt8.ofNat (Char.ofNat n).toLower.toNat) = small (UInt8.ofNat n) := by
      decide +kernel
    -- Place is looked up by the small letter, so it does not see the case.
    obtain ⟨hlt, hsmall⟩ := all ⟨c.toNat, h⟩
    rw [Char.ofNat_toNat] at hlt hsmall
    rw [utf8EncodeChar_of_lt h, utf8EncodeChar_of_lt hlt]
    simp only [List.map_cons, List.map_nil, place, hsmall]
  · -- Beyond ASCII no letter has a case here.
    have hlower : c.toLower = c := by
      refine dif_neg fun hcapital => ?_
      have hle : c.toNat ≤ 90 := UInt32.le_iff_toNat_le.mp hcapital.2
      omega
    rw [hlower]

/-- Texts that differ in the case of letters only have the same places. -/
theorem flatMap_map_place_eq {text text' : List Char}
    (h : text'.map Char.toLower = text.map Char.toLower) :
    (text'.flatMap String.utf8EncodeChar).map place =
      (text.flatMap String.utf8EncodeChar).map place := by
  -- Each side is the same function of the small letters.
  have hlower (text : List Char) : (text.flatMap String.utf8EncodeChar).map place =
      (text.map Char.toLower).flatMap fun c => (String.utf8EncodeChar c).map place := by
    rw [List.map_flatMap, List.flatMap_map]
    simp only [map_place_toLower]
  rw [hlower, hlower, h]

/-- Texts that differ in the case of letters only are decoded to the same bytes. -/
theorem decode_eq_ok_iff_of_map_toLower {text text' : List Char}
    (h : text'.map Char.toLower = text.map Char.toLower) (data : Bytes) :
    decode text' = .ok data ↔ decode text = .ok data := by
  have hplaces := flatMap_map_place_eq h
  have hlen : (text'.flatMap String.utf8EncodeChar).length =
      (text.flatMap String.utf8EncodeChar).length := by
    have := congrArg List.length hplaces
    rwa [List.length_map, List.length_map] at this
  -- Whether a byte is a digit can be told from its place.
  have hdigits (bytes : Bytes) : (∀ b ∈ bytes, IsDigit b) ↔ ∀ v ∈ bytes.map place, v < 16 := by
    simp [isDigit_iff]
  unfold decode
  rw [decodeBytes_eq_ok_iff, decodeBytes_eq_ok_iff, hdigits, hdigits, hplaces, hlen]

/-! ## Written text -/

/-- The digits that are written stand in the row. -/
theorem digit_eq {v : UInt8} (hv : v.toNat < 16) : digit v = row.getD v.toNat '0' := by
  have all : ∀ n : Fin 16, digit (UInt8.ofNat n) = row.getD n.val '0' := by decide
  have hdigit := all ⟨v.toNat, hv⟩
  rwa [UInt8.ofNat_toNat] at hdigit

/-- The place of the digit for a value is the value. -/
theorem map_place_digit {v : UInt8} (hv : v.toNat < 16) :
    (String.utf8EncodeChar (digit v)).map place = [v.toNat] := by
  have all : ∀ n : Fin 16,
      (String.utf8EncodeChar (digit (UInt8.ofNat n))).map place = [n.val] := by decide
  have hplace := all ⟨v.toNat, hv⟩
  rwa [UInt8.ofNat_toNat] at hplace

/-- The shift and the mask give the halves of a byte, which are values of digits. -/
theorem toNat_high (b : UInt8) : (b >>> 4).toNat = b.toNat / 16 := by
  rw [UInt8.toNat_shiftRight]
  exact Nat.shiftRight_eq_div_pow b.toNat 4

theorem toNat_low (b : UInt8) : (b &&& 0xf).toNat = b.toNat % 16 := by
  rw [UInt8.toNat_and]
  exact Nat.and_two_pow_sub_one_eq_mod b.toNat 4

theorem toNat_high_lt (b : UInt8) : (b >>> 4).toNat < 16 := by
  have hb := b.toNat_lt
  rw [toNat_high]
  omega

theorem toNat_low_lt (b : UInt8) : (b &&& 0xf).toNat < 16 := by
  rw [toNat_low]
  omega

/-- A byte is written as two digits of the row, the high one first. -/
theorem byteDigits_eq (b : UInt8) :
    byteDigits b = [row.getD (b.toNat / 16) '0', row.getD (b.toNat % 16) '0'] := by
  rw [byteDigits, digit_eq (toNat_high_lt b), digit_eq (toNat_low_lt b), toNat_high, toNat_low]

/-- The places of the digits of a byte are its halves. -/
theorem map_place_byteDigits (b : UInt8) :
    ((byteDigits b).flatMap String.utf8EncodeChar).map place = [b.toNat / 16, b.toNat % 16] := by
  simp only [byteDigits, List.flatMap_cons, List.flatMap_nil, List.append_nil, List.map_append,
    map_place_digit (toNat_high_lt b), map_place_digit (toNat_low_lt b), toNat_high, toNat_low,
    List.cons_append, List.nil_append]

theorem length_flatMap_halves (data : Bytes) :
    (data.flatMap fun b => [b.toNat / 16, b.toNat % 16]).length = 2 * data.length := by
  induction data with
  | nil => rfl
  | cons b data ih =>
    simp only [List.flatMap_cons, List.length_append, List.length_cons, List.length_nil, ih]
    omega

/-- The halves of bytes make the bytes. -/
theorem joinPairs_halves (data : Bytes) :
    joinPairs (data.flatMap fun b => [b.toNat / 16, b.toNat % 16]) = data := by
  induction data with
  | nil => rfl
  | cons b data ih =>
    have hhalves : 16 * (b.toNat / 16) + b.toNat % 16 = b.toNat := Nat.div_add_mod _ _
    rw [List.flatMap_cons, List.cons_append, List.cons_append, List.nil_append, joinPairs_cons_cons,
      ih, hhalves, UInt8.ofNat_toNat]

/-- What is written is read back. -/
theorem decode_encode (data : Bytes) : decode (encode data) = .ok data := by
  have hplaces : ((encode data).flatMap String.utf8EncodeChar).map place =
      data.flatMap fun b => [b.toNat / 16, b.toNat % 16] := by
    rw [encode, List.flatMap_assoc, List.map_flatMap]
    simp only [map_place_byteDigits]
  have hlen := congrArg List.length hplaces
  rw [List.length_map, length_flatMap_halves] at hlen
  -- Two digits for each byte are even in number.
  refine decodeBytes_eq_ok_iff.mpr ⟨by omega, fun b hb => ?_, by rw [hplaces, joinPairs_halves]⟩
  -- Both halves of a byte are below 16, so each of them is the place of a digit.
  have hplace := List.mem_map_of_mem (f := place) hb
  rw [hplaces] at hplace
  obtain ⟨x, -, hx⟩ := List.mem_flatMap.mp hplace
  have hx256 := x.toNat_lt
  simp only [List.mem_cons, List.not_mem_nil, or_false] at hx
  rw [isDigit_iff]
  omega

end SkeinHash.Text.Hex

namespace SkeinHash.KnownAnswer

open Text.Hex

/-! ## Data lines without spacing -/

/-- Without spaces and tabs there is no spacing among the bytes of a text. -/
theorem isSpacing_eq_false_of_mem {text : List Char} (hspace : ' ' ∉ text) (htab : '\t' ∉ text)
    {b : UInt8} (hb : b ∈ text.flatMap String.utf8EncodeChar) : isSpacing b = false := by
  obtain ⟨c, hc, hb⟩ := List.mem_flatMap.mp hb
  cases hspacing : isSpacing b with
  | false => rfl
  | true =>
    have hlow : b.toNat = 0x20 ∨ b.toNat = 0x09 :=
      (isSpacing_iff.mp hspacing).imp (congrArg UInt8.toNat) (congrArg UInt8.toNat)
    -- A byte that is so low is a character of its own.
    rcases Nat.lt_or_ge c.toNat 128 with h | h
    · rw [utf8EncodeChar_of_lt h, List.mem_singleton] at hb
      have hcode : b.toNat = c.toNat := by
        rw [hb, UInt8.toNat_ofNat']
        omega
      rw [hcode] at hlow
      rcases hlow with hlow | hlow
      · exact (hspace (by rwa [← Char.ofNat_toNat c, hlow] at hc)).elim
      · exact (htab (by rwa [← Char.ofNat_toNat c, hlow] at hc)).elim
    · have := le_of_mem_utf8EncodeChar h hb
      omega

/-- Only the empty text is spacing and has none. -/
theorem eq_nil_of_spacing {text : Bytes} (htext : Spacing text)
    (h : ∀ b ∈ text, isSpacing b = false) : text = [] := by
  cases text with
  | nil => rfl
  | cons b text =>
    have hb := htext b (by simp)
    rw [h b (by simp)] at hb
    cases hb

/-- Digits that are even in number are a data line, also without spacing. -/
theorem dataLine_joinPairs : ∀ {line : Bytes}, line.length % 2 = 0 → (∀ b ∈ line, IsDigit b) →
    DataLine line (joinPairs (line.map place))
  | [], _, _ => .spacing (by simp [Spacing])
  | [_], heven, _ => by simp at heven
  | c :: d :: rest, heven, hdigits => by
    have hrest : DataLine rest (joinPairs (rest.map place)) :=
      dataLine_joinPairs (by simp only [List.length_cons] at heven; omega)
        fun b hb => hdigits b (by simp [hb])
    rw [List.map_cons, List.map_cons, joinPairs_cons_cons]
    exact dataLine_pair (hdigits c (by simp)) (hdigits d (by simp)) hrest

/-- Without spacing, a data line is nothing but pairs of digits. -/
theorem dataLine_iff_decodeBytes {line data : Bytes} (h : ∀ b ∈ line, isSpacing b = false) :
    DataLine line data ↔ decodeBytes line = .ok data := by
  rw [decodeBytes_eq_ok_iff]
  constructor
  · intro hline
    -- The induction is on the pairs of the data line, which has no spacing between them.
    induction hline with
    | spacing htext =>
      rw [eq_nil_of_spacing htext h]
      exact ⟨rfl, by simp, rfl⟩
    | @byte lead rest data c d hlead hc hd _ ih =>
      have hnil : lead = [] := eq_nil_of_spacing hlead fun b hb => h b (by simp [hb])
      subst hnil
      obtain ⟨heven, hdigits, rfl⟩ := ih fun b hb => h b (by simp [hb])
      refine ⟨?_, by simpa [hc, hd] using hdigits, ?_⟩
      · simp only [List.nil_append, List.length_cons]
        omega
      · simp [joinPairs_cons_cons]
  · rintro ⟨heven, hdigits, rfl⟩
    exact dataLine_joinPairs heven hdigits

/-- The reader of data lines accepts a text without spacing exactly if decoding does, where there is
    room for half as many bytes as the text has, and appends what decoding gives. -/
theorem appendData_text {text : List Char} {limit : Nat} {held : Bytes} (hspace : ' ' ∉ text)
    (htab : '\t' ∉ text) (hheld : held.length ≤ limit)
    (hroom : (text.flatMap String.utf8EncodeChar).length / 2 ≤ limit - held.length) :
    ((appendData limit held (text.flatMap String.utf8EncodeChar)).1 = .ok () ↔
      ∃ data, decode text = .ok data) ∧
    ∀ data, decode text = .ok data →
      appendData limit held (text.flatMap String.utf8EncodeChar) = (.ok (), held ++ data) := by
  generalize hbytes : text.flatMap String.utf8EncodeChar = bytes at hroom
  have hline (data : Bytes) : DataLine bytes data ↔ decode text = .ok data := by
    rw [decode, hbytes]
    exact dataLine_iff_decodeBytes fun b hb => isSpacing_eq_false_of_mem hspace htab (hbytes ▸ hb)
  -- Data takes half as many bytes as its text, so there is room for it.
  have happend (data : Bytes) (hdata : decode text = .ok data) :
      appendData limit held bytes = (.ok (), held ++ data) := by
    have hlen : 2 * data.length = bytes.length := hbytes ▸ length_of_decodeBytes hdata
    exact appendData_of_dataLine ((hline data).mpr hdata) (by omega)
  -- A line that is read is a data line, so its text can be decoded.
  refine ⟨⟨fun hok => ?_, fun ⟨data, hdata⟩ => ?_⟩, happend⟩
  · have hread : readData (limit - held.length) bytes =
        (.ok (), (readData (limit - held.length) bytes).2) := Prod.ext hok rfl
    exact ⟨_, (hline _).mp (readData_eq_ok_iff.mp hread).1⟩
  · rw [happend data hdata]

end SkeinHash.KnownAnswer

namespace SkeinHash

open Text.Hex KnownAnswer

/-- **Decoding is exact, reads back what is written, and agrees with the reader of data lines.** A
    text is decoded exactly if its bytes are digits and even in number, to the bytes whose halves are
    the places of the digits, with no regard to the case of letters. Otherwise the odd number is the
    error, or else the first byte that is no digit, which the error names. What a digest shows of its
    bytes is decoded to them. And a data line without spacing, for which there is room, is read as
    decoding does. -/
theorem hex_decoding_exact :
    (∀ text : List Char,
      let bytes := text.flatMap String.utf8EncodeChar
      (∀ data, decode text = .ok data ↔
        bytes.length % 2 = 0 ∧ (∀ b ∈ bytes, IsDigit b) ∧ data = joinPairs (bytes.map place)) ∧
      (decode text = .error .oddLength ↔ bytes.length % 2 = 1) ∧
      (∀ b, decode text = .error (.badDigit b) ↔
        bytes.length % 2 = 0 ∧ (bytes.find? fun b => ¬ IsDigit b) = some b) ∧
      ∀ text', text'.map Char.toLower = text.map Char.toLower →
        ∀ data, decode text' = .ok data ↔ decode text = .ok data) ∧
    (∀ b, (DecodeError.badDigit b).message =
      "Invalid hex digit '".toList ++ [Char.ofNat b.toNat, '\'']) ∧
    (∀ (a : Algorithm) (data : Bytes), ∃ digits,
      (Digest.mk a data).describe = .atom (a.name ++ ":" ++ String.ofList digits) ∧
      digits = data.flatMap (fun b => [row.getD (b.toNat / 16) '0', row.getD (b.toNat % 16) '0']) ∧
      decode digits = .ok data) ∧
    ∀ (text : List Char) (limit : Nat) (held : Bytes),
      let bytes := text.flatMap String.utf8EncodeChar
      ' ' ∉ text → '\t' ∉ text → held.length ≤ limit → bytes.length / 2 ≤ limit - held.length →
      ((appendData limit held bytes).1 = .ok () ↔ ∃ data, decode text = .ok data) ∧
      ∀ data, decode text = .ok data → appendData limit held bytes = (.ok (), held ++ data) := by
  refine ⟨fun text => ⟨fun data => decodeBytes_eq_ok_iff, decodeBytes_eq_oddLength_iff,
    fun b => decodeBytes_eq_badDigit_iff, fun text' => decode_eq_ok_iff_of_map_toLower⟩,
    fun b => rfl, fun a data => ⟨encode data, rfl, ?_, decode_encode data⟩,
    fun _ _ _ hspace htab => appendData_text hspace htab⟩
  exact congrArg data.flatMap (funext byteDigits_eq)

/-- A text with letters of both cases, on a data line behind one byte; and a text with a character
    of two bytes, which is refused for the byte before it. -/
theorem hex_decoding_exact_mixed_case :
    let text := "0aF3".toList
    let text' := "0Af3".toList
    let bytes := text.flatMap String.utf8EncodeChar
    let held : Bytes := [0xff]
    (text'.map Char.toLower = text.map Char.toLower ∧ ' ' ∉ text ∧ '\t' ∉ text ∧
      held.length ≤ 3 ∧ bytes.length / 2 ≤ 3 - held.length) ∧
    decode text = .ok [0x0a, 0xf3] ∧ decode text' = .ok [0x0a, 0xf3] ∧
    appendData 3 held bytes = (.ok (), [0xff, 0x0a, 0xf3]) ∧
    decode "0gé".toList = .error (.badDigit 0x67) := by
  intro text text' bytes held
  have hcase : text'.map Char.toLower = text.map Char.toLower := by decide
  have hspace : ' ' ∉ text := by decide
  have htab : '\t' ∉ text := by decide
  have hheld : held.length ≤ 3 := by decide
  have hroom : bytes.length / 2 ≤ 3 - held.length := by decide
  obtain ⟨htexts, -, -, hlines⟩ := hex_decoding_exact
  -- All four characters are digits, and their places are 0, 10, 15 and 3.
  have hdecode : decode text = .ok [0x0a, 0xf3] :=
    ((htexts text).1 _).mpr ⟨by decide, by decide +kernel, by decide⟩
  exact ⟨⟨hcase, hspace, htab, hheld, hroom⟩, hdecode,
    ((htexts text).2.2.2 text' hcase _).mpr hdecode,
    (hlines text 3 held hspace htab hheld hroom).2 _ hdecode,
    ((htexts "0gé".toList).2.2.1 _).mpr (by decide)⟩

end SkeinHash
