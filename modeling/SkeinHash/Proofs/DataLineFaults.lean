import SkeinHash.Proofs.DataLineReading

/-!
# What a data line is refused for

A line that cannot be read to its end is refused for the first fault in it, from left to right, and
what stands before the fault has been read. So every line is either of the grammar and within its
room, or has one first fault, and the reader says which.

- `readData_eq_error_iff`: the first fault
- `appendData_decides`: what a line does to the bytes that are held already
-/

namespace SkeinHash.KnownAnswer

open Text.Hex

/-- A fault at the start of a line is what the line is refused for. -/
theorem readData_of_startsWithFault {room : Nat} {rest : Bytes} {fault : DataFault}
    (h : StartsWithFault room rest fault) : readData room rest = (.error fault, []) := by
  -- One case for each fault; the reader finds what its constructor says in the first two bytes.
  cases h with
  | truncated hc => simp [readData, isSpacing_of_isDigit hc, dataDigit?_of_isDigit hc]
  | @firstDigit c rest hc hnone =>
    have hvalue := dataDigit?_eq_none_iff.mpr hnone
    cases rest <;> simp [readData, hc, hvalue]
  | secondDigit hc hnone =>
    have hvalue := dataDigit?_eq_none_iff.mpr hnone
    simp [readData, isSpacing_of_isDigit hc, hvalue]
  | noRoom hroom hc hd =>
    simp [readData, isSpacing_of_isDigit hc, dataDigit?_of_isDigit hc, dataDigit?_of_isDigit hd,
      hroom]

/-- A fault at the start of a line is the first fault of the line. -/
theorem faultyLine_of_startsWithFault {room : Nat} {rest : Bytes} {fault : DataFault}
    (h : StartsWithFault room rest fault) : FaultyLine room rest [] fault :=
  ⟨[], rest, rfl, .spacing (by simp [Spacing]), Nat.zero_le _, h⟩

/-- A line that is refused has its fault where reading has stopped. -/
theorem faultyLine_of_readData {room : Nat} {line data : Bytes} {fault : DataFault}
    (h : readData room line = (.error fault, data)) : FaultyLine room line data fault := by
  -- The part before the fault is what the reader has been through: it grows at its front by what each
  -- call takes, and the room for it by one for a pair.
  fun_induction readData room line generalizing data with
  | case1 | case2 => cases h
  | case3 room c hc hnone =>
    cases h
    exact faultyLine_of_startsWithFault
      (.firstDigit (by simpa using hc) (dataDigit?_eq_none_iff.mp hnone))
  | case4 room c hc hdigit =>
    cases h
    have hcDigit : IsDigit c := Decidable.not_not.mp (mt dataDigit?_eq_none_iff.mpr hdigit)
    exact faultyLine_of_startsWithFault (.truncated hcDigit)
  | case5 room c d rest hc ih =>
    -- Spacing belongs to the part before the fault.
    obtain ⟨before, behind, hline, hbefore, hroom, hfault⟩ := ih h
    exact ⟨c :: before, behind, by rw [hline, List.cons_append],
      (dataLine_cons_iff hc).2 hbefore, hroom, hfault⟩
  | case6 c d rest hc hi lo hlo hhi =>
    cases h
    obtain ⟨hcDigit, hdDigit, -⟩ := digits_of_values hhi hlo
    exact faultyLine_of_startsWithFault (.noRoom rfl hcDigit hdDigit)
  | case7 room c d rest hc hi lo hlo hhi hroom outcome bytes hread ih =>
    -- So does a pair for which there is room.
    obtain ⟨rfl, rfl⟩ := Prod.mk.inj h
    obtain ⟨before, behind, hline, hbefore, hfits, hfault⟩ := ih hread
    obtain ⟨hcDigit, hdDigit, hbyte⟩ := digits_of_values hhi hlo
    rw [hbyte]
    refine ⟨c :: d :: before, behind, by rw [hline, List.cons_append, List.cons_append],
      dataLine_pair hcDigit hdDigit hbefore, ?_, ?_⟩
    · rw [List.length_cons]
      omega
    · rwa [List.length_cons, show room - (bytes.length + 1) = room - 1 - bytes.length by omega]
  | case8 room c d rest hc hpair =>
    cases h
    -- The first of the two bytes that is no digit is the fault.
    by_cases hcDigit : IsDigit c
    · by_cases hdDigit : IsDigit d
      · exact (hpair _ _ (dataDigit?_of_isDigit hcDigit) (dataDigit?_of_isDigit hdDigit)).elim
      · exact faultyLine_of_startsWithFault (.secondDigit hcDigit hdDigit)
    · exact faultyLine_of_startsWithFault (.firstDigit (by simpa using hc) hcDigit)

/-- A line is refused for its first fault, with what stands before it read. -/
theorem readData_eq_error_iff {room : Nat} {line data : Bytes} {fault : DataFault} :
    readData room line = (.error fault, data) ↔ FaultyLine room line data fault := by
  constructor
  · exact faultyLine_of_readData
  · rintro ⟨before, rest, rfl, hbefore, hroom, hfault⟩
    rw [readData_append_of_dataLine hbefore hroom, readData_of_startsWithFault hfault,
      List.append_nil]

/-- **A data line is read by its grammar, within its room.** Every line is read to its end exactly
    if it is of the grammar and there is room for its data, and is refused for its first fault
    otherwise. In both cases the bytes that were held stay in front, what has been read stands
    behind them, and there are never more than the limit. -/
theorem appendData_decides (limit : Nat) (held line : Bytes) (hheld : held.length ≤ limit) :
    let room := limit - held.length
    let result := appendData limit held line
    (∀ data, result = (.ok (), held ++ data) ↔ DataLine line data ∧ data.length ≤ room) ∧
    (∀ fault data, result = (.error fault, held ++ data) ↔ FaultyLine room line data fault) ∧
    held <+: result.2 ∧ result.2.length ≤ limit ∧
    DataFault.truncated.message = "truncated hex byte" ∧
    DataFault.invalidDigit.message = "invalid hex digit" ∧
    DataFault.tooManyBytes.message = "more bytes than declared" := by
  intro room result
  -- The bytes that are held are not looked at, only counted.
  have hresult (outcome : Except DataFault Unit) (data : Bytes) :
      result = (outcome, held ++ data) ↔ readData room line = (outcome, data) := by
    change ((readData room line).1, held ++ (readData room line).2) = _ ↔ _
    rw [Prod.mk.injEq, List.append_cancel_left_eq, Prod.ext_iff]
  refine ⟨fun data => ?_, fun fault data => ?_, List.prefix_append _ _,
    length_appendData_le hheld line, rfl, rfl, rfl⟩
  · rw [hresult, readData_eq_ok_iff]
  · rw [hresult, readData_eq_error_iff]

/-- With room for one byte more, the second pair of a line is refused, and not what is wrong behind
    it. -/
theorem appendData_decides_second_pair :
    let held : Bytes := [0xaa]
    let line : Bytes := [0x31, 0x32, 0x09, 0x33, 0x34, 0x20, 0x35, 0x78]
    held.length ≤ 2 ∧ FaultyLine 1 line [0x12] .tooManyBytes ∧
    appendData 2 held line = (.error .tooManyBytes, [0xaa, 0x12]) := by
  intro held line
  have hheld : held.length ≤ 2 := by decide
  have hbefore : DataLine [0x31, 0x32, 0x09] [0x12] :=
    dataLine_pair (c := 0x31) (d := 0x32) (by decide) (by decide)
      (.spacing (by simp [Spacing, isSpacing]))
  -- The second pair has no room, and what is wrong behind it is not reached.
  have hfault : FaultyLine 1 line [0x12] .tooManyBytes :=
    ⟨[0x31, 0x32, 0x09], [0x33, 0x34, 0x20, 0x35, 0x78], rfl, hbefore, by decide,
      .noRoom rfl (by decide) (by decide)⟩
  exact ⟨hheld, hfault, ((appendData_decides 2 held line hheld).2.1 .tooManyBytes [0x12]).mpr hfault⟩

end SkeinHash.KnownAnswer
