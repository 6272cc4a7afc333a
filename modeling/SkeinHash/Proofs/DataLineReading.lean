import SkeinHash.Proofs.DigitReading
import SkeinHash.Text.Blank

/-!
# Reading data lines

A line of the grammar is read as the data that it stands for, if there is room, and white space
around it does not matter. Whatever a line holds, also one that cannot be read to its end, no more
is read than there is room for.

- `readData_eq_ok_iff`
- `length_readData_le`
- `dataLine_trim`
-/

namespace SkeinHash.KnownAnswer

open Text.Hex

/-! ## Bytes -/

/-- Spacing is the space and the tab. -/
theorem isSpacing_iff {c : UInt8} : isSpacing c = true ↔ c = 0x20 ∨ c = 0x09 := by
  simp [isSpacing]

/-- Neither of the two bytes that are spacing is a digit. -/
theorem isSpacing_of_isDigit {c : UInt8} (h : IsDigit c) : isSpacing c = false := by
  rw [Bool.eq_false_iff, ne_eq, isSpacing_iff]
  rintro (rfl | rfl)
  · exact absurd h (by decide)
  · exact absurd h (by decide)

/-- Reading goes past spacing, also at the end of a line. -/
theorem readData_cons_spacing (room : Nat) {c : UInt8} (hc : isSpacing c = true) (rest : Bytes) :
    readData room (c :: rest) = readData room rest := by
  cases rest <;> simp [readData, hc]

/-- Spacing in front of a line is skipped. -/
theorem readData_append (room : Nat) {lead : Bytes} (hlead : Spacing lead) (rest : Bytes) :
    readData room (lead ++ rest) = readData room rest := by
  induction lead with
  | nil => rfl
  | cons c lead ih =>
    rw [List.cons_append, readData_cons_spacing room (hlead c (by simp)),
      ih fun d hd => hlead d (by simp [hd])]

/-- Where two digits stand together, they are read as one byte, if there is room for it. -/
theorem readData_pair {room : Nat} (hroom : room ≠ 0) {c d : UInt8} (hc : IsDigit c)
    (hd : IsDigit d) (rest : Bytes) :
    readData room (c :: d :: rest) =
      ((readData (room - 1) rest).1,
        UInt8.ofNat (16 * place c + place d) :: (readData (room - 1) rest).2) := by
  have hbyte := ofNat_shiftLeft_or ((isDigit_iff c).mp hc) ((isDigit_iff d).mp hd)
  simp [readData, isSpacing_of_isDigit hc, dataDigit?_of_isDigit hc, dataDigit?_of_isDigit hd,
    hroom, hbyte]

/-- Behind a part of the grammar that there is room for, reading goes on with less room. -/
theorem readData_append_of_dataLine {before data : Bytes} (h : DataLine before data) {room : Nat}
    (hroom : data.length ≤ room) (rest : Bytes) :
    readData room (before ++ rest) =
      ((readData (room - data.length) rest).1, data ++ (readData (room - data.length) rest).2) := by
  -- The induction is on the pairs of the line, with less room for each that is left.
  induction h generalizing room with
  | spacing htext => exact readData_append room htext rest
  | @byte lead tail data c d hlead hc hd _ ih =>
    rw [List.length_cons] at hroom
    have hrest := ih (show data.length ≤ room - 1 by omega)
    -- The pair takes one byte of the room, its data the others.
    have hless : room - 1 - data.length = room - (data.length + 1) := by omega
    rw [List.append_assoc, readData_append _ hlead, List.cons_append, List.cons_append,
      readData_pair (by omega) hc hd, hrest, hless]
    rfl

/-- A line of the grammar is read as its data. -/
theorem readData_of_dataLine {line data : Bytes} (h : DataLine line data) {room : Nat}
    (hroom : data.length ≤ room) : readData room line = (.ok (), data) := by
  have hread := readData_append_of_dataLine h hroom []
  rwa [List.append_nil, readData, List.append_nil] at hread

/-- A line of the grammar that fits is appended to what is held. -/
theorem appendData_of_dataLine {line data : Bytes} (h : DataLine line data) {limit : Nat}
    {held : Bytes} (hfits : held.length + data.length ≤ limit) :
    appendData limit held line = (.ok (), held ++ data) := by
  have hread : readData (limit - held.length) line = (.ok (), data) :=
    readData_of_dataLine h (by omega)
  rw [appendData, hread]

/-- No line gives more than there is room for, up to its end or up to its first fault. -/
theorem length_readData_le (room : Nat) (line : Bytes) : (readData room line).2.length ≤ room := by
  -- A byte is put down only while there is room, which is then one less.
  fun_induction readData room line <;> simp_all
  omega

/-- Spacing in front of a line does not matter. -/
theorem dataLine_cons_iff {c : UInt8} (hc : isSpacing c = true) {line data : Bytes} :
    DataLine (c :: line) data ↔ DataLine line data := by
  constructor
  · intro h
    generalize htext : c :: line = text at h
    cases h with
    | spacing hspacing =>
      subst htext
      exact .spacing fun d hd => hspacing d (by simp [hd])
    | @byte lead rest data first second hlead hfirst hsecond hrest =>
      cases lead with
      | nil =>
        -- The byte would be a digit.
        obtain ⟨rfl, -⟩ := List.cons.inj htext
        rw [isSpacing_of_isDigit hfirst] at hc
        cases hc
      | cons d lead =>
        obtain ⟨-, rfl⟩ := List.cons.inj htext
        exact .byte (fun e he => hlead e (by simp [he])) hfirst hsecond hrest
  · intro h
    cases h with
    | spacing htext => exact .spacing (by simpa [Spacing, hc] using htext)
    | @byte lead rest data first second hlead hfirst hsecond hrest =>
      exact @DataLine.byte (c :: lead) rest data first second
        (by simpa [Spacing, hc] using hlead) hfirst hsecond hrest

/-- Two digits in front of a line stand for one byte more. -/
theorem dataLine_pair {c d : UInt8} (hc : IsDigit c) (hd : IsDigit d) {rest data : Bytes}
    (h : DataLine rest data) :
    DataLine (c :: d :: rest) (UInt8.ofNat (16 * place c + place d) :: data) :=
  @DataLine.byte [] rest data c d (by simp [Spacing]) hc hd h

/-- What the reader makes of two digits is the byte of their places. -/
theorem digits_of_values {c d hi lo : UInt8} (hhi : dataDigit? c = some hi)
    (hlo : dataDigit? d = some lo) :
    IsDigit c ∧ IsDigit d ∧ (hi <<< 4) ||| lo = UInt8.ofNat (16 * place c + place d) := by
  obtain ⟨hc, rfl⟩ := dataDigit?_eq_some_iff.mp hhi
  obtain ⟨hd, rfl⟩ := dataDigit?_eq_some_iff.mp hlo
  exact ⟨hc, hd, ofNat_shiftLeft_or ((isDigit_iff c).mp hc) ((isDigit_iff d).mp hd)⟩

/-- Whatever is read to its end is of the grammar. -/
theorem dataLine_of_readData {room : Nat} {line data : Bytes}
    (h : readData room line = (.ok (), data)) : DataLine line data := by
  -- The cases are those of the reader: the last of them are faults.
  fun_induction readData room line generalizing data with
  | case1 =>
    cases h
    exact .spacing (by simp [Spacing])
  | case2 room c hc =>
    cases h
    exact .spacing (by simpa [Spacing] using hc)
  | case5 room c d rest hc ih => exact (dataLine_cons_iff hc).2 (ih h)
  | case7 room c d rest hc hi lo hlo hhi hroom outcome bytes hread ih =>
    obtain ⟨rfl, rfl⟩ := Prod.mk.inj h
    obtain ⟨hc, hd, hbyte⟩ := digits_of_values hhi hlo
    rw [hbyte]
    exact dataLine_pair hc hd (ih hread)
  | case3 | case4 | case6 | case8 => cases h

/-- Exactly the lines of the grammar can be read, as far as there is room. -/
theorem readData_eq_ok_iff {room : Nat} {line data : Bytes} :
    readData room line = (.ok (), data) ↔ DataLine line data ∧ data.length ≤ room := by
  constructor
  · intro h
    have hlength := length_readData_le room line
    rw [h] at hlength
    exact ⟨dataLine_of_readData h, hlength⟩
  · exact fun ⟨h, hroom⟩ => readData_of_dataLine h hroom

/-- A buffer that is within its limit stays so, whatever the line. -/
theorem length_appendData_le {limit : Nat} {held : Bytes} (h : held.length ≤ limit)
    (line : Bytes) : (appendData limit held line).2.length ≤ limit := by
  have := length_readData_le (limit - held.length) line
  simp only [appendData, List.length_append]
  omega

/-! ## White space around data -/

/-- Whether a byte can stand on a data line. -/
def isDataByte (b : UInt8) : Bool := isSpacing b || decide (IsDigit b)

/-- There is nothing on a data line but spacing and digits. -/
theorem isDataByte_of_mem {line data : Bytes} (h : DataLine line data) {b : UInt8}
    (hb : b ∈ line) : isDataByte b = true := by
  induction h with
  | spacing htext => simp [isDataByte, htext b hb]
  | byte hlead hc hd _ ih =>
    simp only [List.mem_append, List.mem_cons] at hb
    rcases hb with hb | rfl | rfl | hb
    · simp [isDataByte, hlead b hb]
    · simp [isDataByte, hc]
    · simp [isDataByte, hd]
    · exact ih hb

/-- The same for the characters of a text. -/
theorem isDataByte_of_mem_encode {text : List Char} {data : Bytes}
    (h : DataLine (text.flatMap String.utf8EncodeChar) data) {c : Char} (hc : c ∈ text) :
    (String.utf8EncodeChar c).all isDataByte = true :=
  List.all_eq_true.2 fun _ hb => isDataByte_of_mem h (List.mem_flatMap.2 ⟨c, hc, hb⟩)

/-- Spacing at the front of a line can be left away. -/
theorem dataLine_of_append_left {lead : Bytes} (hlead : Spacing lead) {line data : Bytes}
    (h : DataLine (lead ++ line) data) : DataLine line data := by
  induction lead with
  | nil => exact h
  | cons c lead ih =>
    exact ih (fun d hd => hlead d (by simp [hd])) ((dataLine_cons_iff (hlead c (by simp))).1 h)

/-- Spacing at the end of a line can be left away. -/
theorem dataLine_of_append_right {trail : Bytes} (htrail : Spacing trail) {line data : Bytes}
    (h : DataLine (line ++ trail) data) : DataLine line data := by
  generalize htext : line ++ trail = text at h
  induction h generalizing line with
  | spacing hspacing =>
    subst htext
    exact .spacing fun d hd => hspacing d (by simp [hd])
  | @byte lead rest data c d hlead hc hd hrest ih =>
    -- Both digits stand in `line`, because `trail` has none.
    have hcTrail : c ∉ trail := fun hmem => by
      simpa [isSpacing_of_isDigit hc] using htrail c hmem
    have hdTrail : d ∉ trail := fun hmem => by
      simpa [isSpacing_of_isDigit hd] using htrail d hmem
    rcases List.append_eq_append_iff.1 htext with ⟨_, _, rfl⟩ | ⟨behind, rfl, hbehind⟩
    · simp at hcTrail
    · match behind with
      | [] =>
        rw [List.nil_append] at hbehind
        simp [← hbehind] at hcTrail
      | [_] =>
        simp only [List.cons_append, List.nil_append, List.cons.injEq] at hbehind
        simp [← hbehind.2] at hdTrail
      | _ :: _ :: line =>
        simp only [List.cons_append, List.cons.injEq] at hbehind
        obtain ⟨rfl, rfl, rfl⟩ := hbehind
        exact .byte hlead hc hd (ih rfl)

/-- White space that can stand on a data line is spaces and tabs. -/
theorem spacing_encode_blank {c : Char} (hblank : Text.isBlank c = true)
    (hbytes : (String.utf8EncodeChar c).all isDataByte = true) :
    Spacing (String.utf8EncodeChar c) := by
  have all : (Text.blanks.all fun c => !(String.utf8EncodeChar c).all isDataByte ||
      (String.utf8EncodeChar c).all isSpacing) = true := by decide
  have hspacing := List.all_eq_true.1 all c (by simpa [Text.isBlank] using hblank)
  rw [hbytes, Bool.not_true, Bool.false_or] at hspacing
  exact List.all_eq_true.1 hspacing

/-- White space at both ends of a data line can be left away. -/
theorem dataLine_trim {text : List Char} {data : Bytes}
    (h : DataLine (text.flatMap String.utf8EncodeChar) data) :
    DataLine ((Text.trim text).flatMap String.utf8EncodeChar) data := by
  obtain ⟨lead, trail, htext, hlead, htrail⟩ := Text.exists_trim text
  -- Not all white space is spacing; but on a data line there is no other.
  have hspacing : ∀ part : List Char, part ⊆ text → (∀ c ∈ part, Text.isBlank c = true) →
      Spacing (part.flatMap String.utf8EncodeChar) := by
    intro part hpart hblank b hb
    obtain ⟨c, hc, hb⟩ := List.mem_flatMap.1 hb
    exact spacing_encode_blank (hblank c hc) (isDataByte_of_mem_encode h (hpart hc)) b hb
  have hleft := hspacing lead (by rw [htext]; simp) hlead
  have hright := hspacing trail (by rw [htext]; simp) htrail
  rw [htext, List.flatMap_append, List.flatMap_append] at h
  exact dataLine_of_append_left hleft (dataLine_of_append_right hright h)

end SkeinHash.KnownAnswer
