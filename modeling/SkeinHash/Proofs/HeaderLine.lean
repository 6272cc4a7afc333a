import SkeinHash.KnownAnswer.Written

/-!
# Headers of known answers

A written header is read as what it declares. A header that can be read has a key exactly if it
ends with `MAC`, although the reader looks for these letters behind the message length only.

- `parse?_headerText`
- `isKeyed_iff`
-/

namespace SkeinHash.KnownAnswer.Header

/-! ## Written headers -/

/-- No digit is white space. -/
theorem isBlank_of_isDigit {c : Char} (h : c.isDigit = true) : Text.isBlank c = false := by
  cases hblank : Text.isBlank c with
  | false => rfl
  | true =>
    -- White space is a finite list, which can be looked through.
    have noDigit : (Text.blanks.all fun d => !d.isDigit) = true := by decide
    have := List.all_eq_true.1 noDigit c (by simpa [Text.isBlank] using hblank)
    simp [h] at this

/-- White space around a number does not matter. -/
theorem trim_digits (n : Nat) {lead trail : List Char} (hlead : ∀ c ∈ lead, Text.isBlank c = true)
    (htrail : ∀ c ∈ trail, Text.isBlank c = true) :
    Text.trim (lead ++ Text.Decimal.digits n ++ trail) = Text.Decimal.digits n :=
  Text.trim_append hlead (Text.Decimal.digits_ne_nil n)
    (fun _ hc => isBlank_of_isDigit (Text.Decimal.isDigit_of_mem_digits hc)) htrail

/-- A number that ends where a separator starts, with white space around it. -/
theorem number?_digits {n : Nat} (hn : n < UInt64.size) {c : Char} (hc : c.isDigit = false)
    {lead trail : List Char} (hlead : ∀ d ∈ lead, Text.isBlank d = true)
    (htrail : ∀ d ∈ trail, Text.isBlank d = true) (hblank : Text.isBlank c = false)
    (separator rest : List Char) :
    number? (c :: separator) (lead ++ Text.Decimal.digits n ++ trail ++ c :: separator ++ rest) =
      some (n, rest) := by
  -- The separator starts with what is neither white space nor a digit.
  have hbefore : c ∉ lead ++ Text.Decimal.digits n ++ trail := by
    simp only [List.mem_append, not_or]
    refine ⟨⟨fun h => ?_, fun h => ?_⟩, fun h => ?_⟩
    · simp [hlead c h] at hblank
    · simp [Text.Decimal.isDigit_of_mem_digits h] at hc
    · simp [htrail c h] at hblank
  -- So the first place where the separator stands is the one behind the number.
  rw [number?, Text.splitFirst?_append_of_not_mem hbefore]
  simp only [Option.bind_eq_bind, Option.bind_some, trim_digits n hlead htrail,
    Text.Decimal.parse?_digits hn, Option.pure_def]

/-- What stands behind the message length of a written header. -/
def remarks (isTree isKeyed : Bool) : List Char :=
  ", data = 'random'".toList ++ (if isTree then ", Tree".toList else []) ++
    (if isKeyed then ", MAC".toList else [])

/-- The remarks end with `MAC` exactly if the vector has a key, also behind `Tree`. -/
theorem isKeyed_remarks : ∀ isTree isKeyed : Bool,
    (Text.beforeEnd? "MAC".toList (Text.trimRight (remarks isTree isKeyed))).isSome = isKeyed := by
  decide

/-- `Tree` stands in the remarks exactly if the vector is about a tree. -/
theorem isTree_remarks : ∀ isTree isKeyed : Bool,
    (Text.splitFirst? "Tree".toList (remarks isTree isKeyed)).isSome = isTree := by
  decide

/-- A written header behind the name of the message length. -/
def lengthText (v : KnownAnswer) : List Char :=
  [' '] ++ Text.Decimal.digits v.messageBits ++ [' '] ++ "bits".toList ++
    remarks v.isTree v.key.isSome

/-- A written header behind the state size. -/
def outputText (v : KnownAnswer) : List Char :=
  [' '] ++ Text.Decimal.digits v.outputBits ++ [] ++ "-bit hash,".toList ++
    ([' '] ++ ("msgLen =".toList ++ lengthText v))

/-- A written header, grouped by the numbers that the reader asks for in turn. -/
theorem headerText_eq (v : KnownAnswer) :
    headerText v =
      lead ++ ([] ++ Text.Decimal.digits v.size.bits ++ [] ++ [':'] ++ outputText v) := by
  have hcolon : ": ".toList = [':'] ++ [' '] := rfl
  have houtput : "-bit hash, msgLen = ".toList =
    "-bit hash,".toList ++ ([' '] ++ ("msgLen =".toList ++ [' '])) := rfl
  have hmessage : " bits, data = 'random'".toList =
    [' '] ++ ("bits".toList ++ ", data = 'random'".toList) := rfl
  unfold headerText outputText lengthText remarks
  -- The literals first, or regrouping would take them apart character by character.
  simp only [hcolon, houtput, hmessage]
  simp only [List.append_assoc, List.nil_append]

/-- Numbers have a space around them, or nothing. -/
theorem forall_isBlank_space : ∀ c ∈ [' '], Text.isBlank c = true :=
  List.forall_mem_singleton.2 rfl

theorem forall_isBlank_nil : ∀ c ∈ ([] : List Char), Text.isBlank c = true := by simp

/-- A written header is read as what it declares. -/
theorem parse?_headerText {v : KnownAnswer} (hv : v.WellFormed) :
    parse? (headerText v) =
      some ⟨v.size, v.outputBits, v.messageBits, v.key.isSome, v.isTree⟩ := by
  have hsize : v.size.bits < UInt64.size := by cases v.size <;> decide
  -- The three numbers, each with the rest that the next part of the reader gets.
  have hbits : number? [':'] ([] ++ Text.Decimal.digits v.size.bits ++ [] ++ [':'] ++
      outputText v) = some (v.size.bits, outputText v) :=
    number?_digits hsize rfl forall_isBlank_nil forall_isBlank_nil rfl _ _
  have houtput : number? "-bit hash,".toList (outputText v) =
      some (v.outputBits, [' '] ++ ("msgLen =".toList ++ lengthText v)) :=
    number?_digits hv.outputBits_lt rfl forall_isBlank_space forall_isBlank_nil rfl _ _
  have hleft : Text.trimLeft ([' '] ++ ("msgLen =".toList ++ lengthText v)) =
      "msgLen =".toList ++ lengthText v := by
    rw [Text.trimLeft_append forall_isBlank_space]
    rfl
  -- What is behind the length decides the two flags, see `isKeyed_remarks`.
  have hmessage : number? "bits".toList (lengthText v) =
      some (v.messageBits, remarks v.isTree v.key.isSome) :=
    number?_digits hv.messageBits_lt rfl forall_isBlank_space forall_isBlank_space rfl _ _
  rw [headerText_eq, parse?]
  simp only [Text.afterStart?_append, hbits, StateSize.ofBits?_bits, houtput, hleft, hmessage,
    Option.bind_eq_bind, Option.bind_some, Option.pure_def, isKeyed_remarks, isTree_remarks]

/-! ## Readable headers -/

/-- Each part of the reader leaves a suffix of what it was given. -/
theorem suffix_of_number? {separator text rest : List Char} {n : Nat}
    (h : number? separator text = some (n, rest)) : separator ++ rest <:+ text := by
  simp only [number?, Option.bind_eq_bind, Option.bind_eq_some_iff] at h
  obtain ⟨⟨before, after⟩, hsplit, _, _, h⟩ := h
  cases h
  exact ⟨before, by rw [Text.splitFirst?_eq_some hsplit, List.append_assoc]⟩

theorem suffix_of_afterStart? {start text rest : List Char}
    (h : Text.afterStart? start text = some rest) : rest <:+ text :=
  ⟨start, (Text.afterStart?_eq_some_iff.1 h).symm⟩

/-- The reader looks for the key behind the unit of the message length. -/
theorem exists_rest_of_parse? {text : List Char} {h : Header} (hparse : parse? text = some h) :
    ∃ rest, 's' :: rest <:+ text ∧
      h.isKeyed = (Text.beforeEnd? "MAC".toList (Text.trimRight rest)).isSome := by
  simp only [parse?, Option.bind_eq_bind, Option.bind_eq_some_iff] at hparse
  obtain ⟨afterLead, hlead, ⟨_, afterBits⟩, hbits, _, _, ⟨_, afterOutput⟩, houtput,
    afterName, hname, ⟨_, rest⟩, hmessage, hparse⟩ := hparse
  cases hparse
  -- What is left after each part is a suffix of what was left before it.
  have hunit : 's' :: rest <:+ "bits".toList ++ rest := ⟨"bit".toList, rfl⟩
  have hmessage : 's' :: rest <:+ afterName := hunit.trans (suffix_of_number? hmessage)
  have hname : afterName <:+ afterOutput :=
    (suffix_of_afterStart? hname).trans (List.dropWhile_suffix _)
  have houtput : afterOutput <:+ afterBits :=
    (List.suffix_append _ _).trans (suffix_of_number? houtput)
  have hbits : afterBits <:+ text :=
    ((List.suffix_append _ _).trans (suffix_of_number? hbits)).trans (suffix_of_afterStart? hlead)
  exact ⟨rest, hmessage.trans (hname.trans (houtput.trans hbits)), rfl⟩

/-- A suffix that does not have a character begins behind that character. -/
theorem suffix_of_append_cons {ending front text : List Char} {c : Char} (hc : c ∉ ending)
    (h : ending <:+ front ++ c :: text) : ending <:+ text := by
  -- Both are suffixes of the same text, so one of them is a suffix of the other.
  rcases List.suffix_or_suffix_of_suffix h (List.suffix_append front (c :: text)) with h | h
  · rcases List.suffix_cons_iff.1 h with rfl | h
    · simp at hc
    · exact h
  · exact absurd (h.subset (by simp)) hc

/-- A vector has a key exactly if its header ends with `MAC`, up to white space. -/
theorem isKeyed_iff {text : List Char} {h : Header} (hparse : parse? text = some h) :
    h.isKeyed = true ↔ "MAC".toList <:+ Text.trimRight text := by
  obtain ⟨rest, ⟨front, rfl⟩, hkeyed⟩ := exists_rest_of_parse? hparse
  rw [hkeyed, Text.isSome_beforeEnd?_iff, Text.trimRight_append_cons front (by decide)]
  constructor
  · intro hend
    exact hend.trans ((List.suffix_cons _ _).trans (List.suffix_append _ _))
  · -- The unit of the message length stands before `rest`, and has a letter that `MAC` has not.
    exact suffix_of_append_cons (by decide)

end SkeinHash.KnownAnswer.Header
