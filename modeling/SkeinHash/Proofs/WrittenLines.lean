import SkeinHash.Proofs.DataLineReading
import SkeinHash.Proofs.HeaderLine

/-!
# Written lines

What the lines of a written vector say to a reader: headers and headings are told by their text,
and nothing that stands on a data line can be taken for one of them.

- `ofText_headerText`, `ofText_keyHeading`, `ofText_rule`
- `ofText_blank`, `ofText_noData`
- `ofText_dataLine`
-/

namespace SkeinHash.KnownAnswer.Line

/-! ## Lines that are no headers -/

/-- A header has a colon that is no white space. -/
theorem isHeader_eq_false {text : List Char} (h : ':' ∉ Text.trim text) :
    Header.isHeader text = false := by
  cases hheader : Header.isHeader text with
  | false => rfl
  | true =>
    have hmem : ':' ∈ text := (List.isPrefixOf_iff_prefix.1 hheader).subset (by decide)
    -- The colon of a header is part of the text, since white space has none.
    obtain ⟨lead, trail, htext, hlead, htrail⟩ := Text.exists_trim text
    rw [htext, List.mem_append, List.mem_append] at hmem
    rcases hmem with (hmem | hmem) | hmem
    · exact absurd (hlead _ hmem) (by decide)
    · exact absurd hmem h
    · exact absurd (htrail _ hmem) (by decide)

/-- Without a colon a line is told by its text alone, up to white space around it. -/
theorem ofText_eq_ofTrimmed {text : List Char} (h : ':' ∉ Text.trim text) :
    ofText text = ofTrimmed (Text.trim text) := by
  simp [ofText, isHeader_eq_false h]

/-- A line of white space says nothing. -/
theorem ofText_blank {text : List Char} (h : BlankLine text) : ofText text = .blank := by
  have htrim : Text.trim text = [] := h
  rw [ofText_eq_ofTrimmed (by simp [htrim]), htrim]
  rfl

/-- The remark that there is no data, with white space around it. -/
theorem ofText_noData {text : List Char} (h : Text.trim text = "(none)".toList) :
    ofText text = .noData := by
  rw [ofText_eq_ofTrimmed (by rw [h]; decide), h]
  rfl

/-- Four dashes or more end a vector. -/
theorem ofText_rule {text : List Char} (h : RuleLine text) : ofText text = .rule := by
  obtain ⟨n, rfl⟩ := h
  have hdash : ':' ∉ List.replicate (4 + n) '-' := by simp
  have hfirst : (List.replicate (4 + n) '-').head? = some '-' := by simp [List.head?_replicate]
  have hlast : (List.replicate (4 + n) '-').getLast? = some '-' := by
    simp [List.getLast?_replicate]
  -- A dash stands at both ends, so there is nothing to trim.
  have htrim : Text.trim (List.replicate (4 + n) '-') = List.replicate (4 + n) '-' :=
    Text.trim_eq_self hfirst (by decide) hlast (by decide)
  rw [← htrim] at hdash
  rw [ofText_eq_ofTrimmed hdash, htrim, ← List.replicate_append_replicate]
  simp [ofTrimmed, List.replicate]

/-! ## Headers and headings -/

/-- A written header is read as a header that declares what the vector has. -/
theorem ofText_headerText {v : KnownAnswer} (hv : v.WellFormed) :
    ofText (headerText v) =
      .header (some ⟨v.size, v.outputBits, v.messageBits, v.key.isSome, v.isTree⟩) := by
  have hheader : Header.isHeader (headerText v) = true := by
    simp only [Header.isHeader, headerText, List.append_assoc, List.isPrefixOf_iff_prefix]
    exact List.prefix_append _ _
  rw [ofText, if_pos hheader, Header.parse?_headerText hv]

/-- Headings without a number are told by their text. -/
theorem ofText_messageHeading : ofText "Message data:".toList = .messageHeading := by
  decide

theorem ofText_resultHeading : ofText "Result:".toList = .resultHeading := by
  decide

/-- What begins like the heading of a key is one, whatever stands behind it. -/
theorem ofTrimmed_keyHeading (rest : List Char) :
    ofTrimmed ("MAC key =".toList ++ rest) = .keyHeading (keyLength? rest) := by
  have hrule : "----".toList.isPrefixOf ("MAC key =".toList ++ rest) = false := rfl
  have hmessage : "MAC key =".toList ++ rest ≠ "Message data:".toList := by simp
  have hresult : "MAC key =".toList ++ rest ≠ "Result:".toList := by simp
  rw [ofTrimmed, if_neg (by simp), hrule, if_neg (by simp), if_neg hmessage, if_neg hresult,
    Text.afterStart?_append]

/-- The length that a written heading of a key declares. -/
theorem keyLength?_digits {n : Nat} (hn : n < UInt64.size) :
    keyLength? ([' '] ++ Text.Decimal.digits n ++ [' '] ++ "bytes:".toList) = some n := by
  have hdigits : Text.trim ([' '] ++ Text.Decimal.digits n ++ [' ']) = Text.Decimal.digits n :=
    Header.trim_digits n Header.forall_isBlank_space Header.forall_isBlank_space
  rw [keyLength?, Text.beforeEnd?_eq_some_iff.2 rfl]
  simp only [Option.bind_eq_bind, Option.bind_some, hdigits, Text.Decimal.parse?_digits hn]

/-- The heading of a key is read with the length it declares. -/
theorem ofText_keyHeading {n : Nat} (hn : n < UInt64.size) :
    ofText ("MAC key = ".toList ++ Text.Decimal.digits n ++ " bytes:".toList) =
      .keyHeading (some n) := by
  -- Named, or the literals would be joined with what stands behind them.
  obtain ⟨rest, hrest⟩ : ∃ rest, rest =
    [' '] ++ Text.Decimal.digits n ++ [' '] ++ "bytes:".toList := ⟨_, rfl⟩
  have hwritten : "MAC key = ".toList ++ Text.Decimal.digits n ++ " bytes:".toList =
      "MAC key =".toList ++ rest := by
    rw [hrest]
    simp
  have hlast : ("MAC key =".toList ++ rest).getLast? = some ':' := by
    rw [hrest, List.getLast?_append, List.getLast?_append]
    rfl
  have htrim : Text.trim ("MAC key =".toList ++ rest) = "MAC key =".toList ++ rest :=
    Text.trim_eq_self rfl (by decide) hlast (by decide)
  have hheader : Header.isHeader ("MAC key =".toList ++ rest) = false := rfl
  rw [hwritten, ofText, hheader, if_neg (by simp), htrim, ofTrimmed_keyHeading, hrest,
    keyLength?_digits hn]

/-! ## Data -/

/-- What begins with none of the first characters of the other lines is data. -/
theorem ofTrimmed_data {text : List Char} (ne : text ≠ [])
    (h : ∀ c ∈ ['-', 'M', 'R', '('], c ∉ text) :
    ofTrimmed text = .data (text.flatMap String.utf8EncodeChar) := by
  have hrule : "----".toList.isPrefixOf text = false := by
    rw [Bool.eq_false_iff, ne_eq, List.isPrefixOf_iff_prefix]
    exact fun hstart => h '-' (by decide) (hstart.subset (by decide))
  have hmessage : text ≠ "Message data:".toList := fun e => h 'M' (by decide) (by rw [e]; decide)
  have hresult : text ≠ "Result:".toList := fun e => h 'R' (by decide) (by rw [e]; decide)
  have hnone : text ≠ "(none)".toList := fun e => h '(' (by decide) (by rw [e]; decide)
  -- A heading of a key would begin with the letter `M` too.
  have hkey : Text.afterStart? "MAC key =".toList text = none := by
    cases hafter : Text.afterStart? "MAC key =".toList text with
    | none => rfl
    | some rest =>
      rw [Text.afterStart?_eq_some_iff] at hafter
      exact absurd (by simp [hafter]) (h 'M' (by decide))
  simp only [ofTrimmed, if_neg ne, hrule, Bool.false_eq_true, if_false, if_neg hmessage,
    if_neg hresult, hkey, if_neg hnone]

/-- There is no data on an empty line. -/
theorem eq_nil_of_dataLine {line data : Bytes} (h : DataLine line data) (hline : line = []) :
    data = [] := by
  cases h with
  | spacing => rfl
  | byte => simp at hline

/-- A data line is one to the reader, unless there is nothing on it. -/
theorem ofText_dataLine {text : List Char} {data : Bytes}
    (h : DataLine (text.flatMap String.utf8EncodeChar) data) :
    ofText text = .blank ∧ data = [] ∨
      ∃ line, ofText text = .data line ∧ DataLine line data := by
  have htrimmed := dataLine_trim h
  -- No character of a data line begins a line of another kind, or is the colon of a header.
  have hmark : ∀ c ∈ [':', '-', 'M', 'R', '('], c ∉ Text.trim text := by
    intro c hc hmem
    have none : ([':', '-', 'M', 'R', '('].all fun c =>
        !(String.utf8EncodeChar c).all isDataByte) = true := by decide
    have := List.all_eq_true.1 none c hc
    simp [isDataByte_of_mem_encode htrimmed hmem] at this
  rw [ofText_eq_ofTrimmed (hmark ':' (by decide))]
  by_cases htrim : Text.trim text = []
  · rw [htrim] at htrimmed ⊢
    exact .inl ⟨rfl, eq_nil_of_dataLine htrimmed rfl⟩
  · exact .inr ⟨_, ofTrimmed_data htrim fun c hc => hmark c (List.mem_cons_of_mem _ hc), htrimmed⟩

end SkeinHash.KnownAnswer.Line
