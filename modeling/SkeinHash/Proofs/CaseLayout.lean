import SkeinHash.AttributeFile.Run
import SkeinHash.AttributeFile.Written
import Mathlib.Data.List.Basic

/-!
# Written cases are read back

Whatever layout a list of test cases is written in, with any number of empty lines around the
cases, comments anywhere and either kind of line ending, a reader meets the same cases with the
same sections, and a run hands each of them to the test, in order and once.

- `ofLines_filter`: comments do not matter
- `ofLines_caseLines`: the lines of a case become its attributes
- `ofLines_layout`: the cases of a layout
- `run_joinLines`: the cases of a text, and what a run over it does
-/

namespace SkeinHash.AttributeFile

/-! ## Single lines -/

namespace Line

/-- A line that does not look like anything else is that of an attribute. -/
theorem ofText_eq_ofAttribute {text : List Char} (insideCase : Bool) (ne : text ≠ [])
    (hcomment : text.head? ≠ some '#') (hsection : text.head? ≠ some '[') :
    ofText insideCase text = ofAttribute text := by
  cases text with
  | nil => exact absurd rfl ne
  | cons c rest =>
    simp only [List.head?_cons, ne_eq, Option.some.injEq] at hcomment hsection
    simp [ofText, hcomment, hsection]

/-- The separator cannot start before the end of a name without an equals sign. -/
theorem splitFirst?_attributeText {a : List Char × List Char} (h : '=' ∉ a.1) :
    Text.splitFirst? " = ".toList (WrittenCase.attributeText a) = some a := by
  refine Text.splitFirst?_append fun tail ne hsuffix => ?_
  have hname : '=' ∉ tail := fun hmem => h (hsuffix.subset hmem)
  -- Either the equals sign of the separator would be in the name, or the space before it.
  match tail, ne with
  | [c], _ => simp [Text.afterStart?]
  | c :: d :: tail, _ =>
    have hd : '=' ≠ d := fun e => hname (by rw [e]; simp)
    simp [Text.afterStart?, hd]

/-- A written attribute is read with its name and its value. -/
theorem ofText_attributeText {c : WrittenCase} (hc : c.WellFormed) {a : List Char × List Char}
    (ha : a ∈ c.attributes) (insideCase : Bool) :
    ofText insideCase (WrittenCase.attributeText a) = .ok (.attribute a.1 a.2) := by
  obtain ⟨hcomment, hsection⟩ := hc.name_start a ha
  -- An attribute without a name begins with the space of the separator.
  have hhead : (WrittenCase.attributeText a).head? = some (a.1.head?.getD ' ') := by
    unfold WrittenCase.attributeText
    cases a.1 <;> simp
  rw [ofText_eq_ofAttribute insideCase]
  · have hname : Text.trim a.1 = a.1 := hc.name_trimmed a ha
    have hvalue : Text.trim a.2 = a.2 := hc.value_trimmed a ha
    simp only [ofAttribute, splitFirst?_attributeText (hc.no_separator a ha), hname, hvalue,
      if_neg (hc.value_nonempty a ha)]
  · intro e
    simp [e] at hhead
  · rw [hhead]
    cases hfirst : a.1.head? <;> simp_all
  · rw [hhead]
    cases hfirst : a.1.head? <;> simp_all

/-- A written section line is read with its name, brackets in it included. -/
theorem ofText_headingText (name : List Char) :
    ofText false (WrittenCase.headingText name) = .ok (.heading name) := by
  have hlast : ('[' :: (name ++ [']'])).getLast? = some ']' := by
    rw [← List.cons_append, List.getLast?_concat]
  simp [WrittenCase.headingText, ofText, ofSection, hlast]

end Line

/-! ## The lines of cases -/

namespace Cases

/-- A comment is one anywhere. -/
theorem ofText_comment {text : List Char} (h : isComment text = true) (insideCase : Bool) :
    Line.ofText insideCase text = .ok .comment := by
  cases text with
  | nil => simp [isComment] at h
  | cons c rest =>
    obtain rfl : c = '#' := by simpa [isComment] using h
    rfl

/-- Comments do not matter, not even between the section line of a case and its attributes. -/
theorem ofLines_filter (name : List Char) (attributes : List Attribute)
    (lines : List (List Char)) :
    ofLines name attributes (lines.filter fun line => !isComment line) =
      ofLines name attributes lines := by
  induction lines generalizing name attributes with
  | nil => rfl
  | cons text rest ih =>
    -- A comment leaves the section and the attributes so far as they are.
    by_cases h : isComment text
    · rw [List.filter_cons_of_neg (by simp [h]), ih, ofLines.eq_def name attributes (text :: rest)]
      simp [ofText_comment h]
    · rw [List.filter_cons_of_pos (by simp [h])]
      simp only [ofLines, ih]

/-- Written attributes come behind those of the case so far. -/
theorem ofLines_attributes {c : WrittenCase} (hc : c.WellFormed) (name : List Char)
    (before : List Attribute) {written : List (List Char × List Char)}
    (hwritten : ∀ a ∈ written, a ∈ c.attributes) (rest : List (List Char)) :
    ofLines name before (written.map WrittenCase.attributeText ++ rest) =
      ofLines name (before ++ written.map fun a => ⟨a.1, a.2, false⟩) rest := by
  induction written generalizing before with
  | nil => simp
  | cons a written ih =>
    have hline := Line.ofText_attributeText hc (hwritten a (by simp)) (before ≠ [])
    simp only [List.map_cons, List.cons_append, ofLines, hline]
    rw [ih _ fun b hb => hwritten b (by simp [hb])]
    simp

/-- The lines of a case become its attributes, in its own section or in the current one. -/
theorem ofLines_caseLines {c : WrittenCase} (hc : c.WellFormed) (name : List Char)
    (rest : List (List Char)) :
    ofLines name [] (c.lines ++ rest) =
      ofLines (c.sectionName.getD name) c.testCase.attributes rest := by
  have hattributes := fun name => ofLines_attributes hc name [] (fun a ha => ha) rest
  unfold WrittenCase.lines
  -- Without a section line the case stays in the current section.
  cases hsection : c.sectionName with
  | none => exact hattributes name
  | some sectionName =>
    have hline := Line.ofText_headingText sectionName
    simp only [Option.map_some, Option.toList_some, List.cons_append, List.nil_append, ofLines,
      ne_eq, not_true_eq_false, decide_false, hline]
    exact hattributes sectionName

/-- An empty line closes the case before it. -/
theorem ofLines_blank (name : List Char) (attributes : List Attribute)
    (rest : List (List Char)) :
    ofLines name attributes ([] :: rest) = after (close name attributes) (ofLines name [] rest) :=
  rfl

/-- Outside of a case empty lines do not matter. -/
theorem ofLines_blanks (name : List Char) (n : Nat) (rest : List (List Char)) :
    ofLines name [] (List.replicate n [] ++ rest) = ofLines name [] rest := by
  induction n with
  | zero => rfl
  | succ n ih => exact ih

/-- An empty line ends a case, and so does the end of the text. -/
theorem ofLines_end (name : List Char) {attributes : List Attribute} (ne : attributes ≠ [])
    (n : Nat) :
    ofLines name attributes (List.replicate n []) = ⟨[⟨name, ⟨attributes⟩⟩], none⟩ := by
  cases n with
  | zero => simp [ofLines, close, ne]
  | succ n =>
    have hblanks := ofLines_blanks name n []
    rw [List.append_nil] at hblanks
    rw [List.replicate_succ, ofLines_blank, hblanks]
    simp [ofLines, close, after, ne]

theorem testCase_ne_nil {c : WrittenCase} (hc : c.WellFormed) : c.testCase.attributes ≠ [] := by
  simpa [WrittenCase.testCase] using hc.nonempty

/-- The cases of a layout. -/
theorem ofLines_layout {cases : List WrittenCase} {body : List (List Char)}
    (h : Layout cases body) (hcases : ∀ c ∈ cases, c.WellFormed) (name : List Char) :
    ofLines name [] body = ⟨sectioned name cases, none⟩ := by
  -- The induction is on the layout; the section goes on from case to case.
  induction h generalizing name with
  | @last c n =>
    have hc := hcases c (by simp)
    rw [ofLines_caseLines hc, ofLines_end _ (testCase_ne_nil hc)]
    rfl
  | @cons c cases between rest hbetween hrest ih =>
    have hc := hcases c (by simp)
    obtain ⟨n, rfl⟩ : ∃ n, between = n + 1 := ⟨between - 1, by omega⟩
    rw [List.append_assoc, ofLines_caseLines hc, List.replicate_succ, List.cons_append,
      ofLines_blank, ofLines_blanks, ih fun c' hc' => hcases c' (by simp [hc'])]
    simp [close, after, testCase_ne_nil hc, sectioned]

end Cases

/-! ## Runs -/

variable {σ : Type}

/-- A test that does not give up meets all cases, in order, with its own state handed on. -/
theorem visitCases_of_no_fault {test : Test σ} {cases : List SectionCase} {s : σ}
    (h : ∀ v ∈ (visitCases test cases s).1, v.fault? = none) :
    (visitCases test cases s).1.map (·.sectionCase) = cases ∧
    (visitCases test cases s).2 =
      cases.foldl (fun s c => ((test c.sectionName).run s c.testCase).state) s := by
  induction cases generalizing s with
  | nil => exact ⟨rfl, rfl⟩
  | cons c rest ih =>
    unfold visitCases at h ⊢
    -- As no visit has a fault, the run goes on with the state that the test left.
    cases hfault : (⟨c, (test c.sectionName).run s c.testCase⟩ : Visit σ).fault? with
    | some fault =>
      -- The visit of `c` itself would have given up.
      have hfirst := h ⟨c, (test c.sectionName).run s c.testCase⟩ (by simp [hfault])
      rw [hfault] at hfirst
      cases hfirst
    | none =>
      simp only [hfault] at h ⊢
      obtain ⟨hcases, hstate⟩ := ih fun v hv => h v (List.mem_cons_of_mem _ hv)
      exact ⟨congrArg (c :: ·) hcases, hstate⟩

theorem sectioned_ne_nil {cases : List WrittenCase} (ne : cases ≠ []) (name : List Char) :
    sectioned name cases ≠ [] := by
  cases cases with
  | nil => exact absurd rfl ne
  | cons c rest => simp [sectioned]

theorem Layout.ne_nil {cases : List WrittenCase} {body : List (List Char)}
    (h : Layout cases body) : cases ≠ [] := by
  cases h <;> simp

/-- **Written cases are run once each.** A text that a list of cases is written in holds these cases,
    with no attribute taken and with the section that was named last. A test that does not give up
    is run on each of them in order, whatever the verdicts on earlier ones, and the run passes if
    all verdicts are good. -/
theorem run_joinLines {cases : List WrittenCase} {ended : List (List Char × Text.Ending)}
    (hcases : ∀ c ∈ cases, c.WellFormed) (hended : ∀ l ∈ ended, l.2.Fits l.1)
    (hlines : CaseLines cases (ended.map (·.1))) :
    Cases.ofText (Text.joinLines ended) = ⟨sectioned [] cases, none⟩ ∧
    ∀ (σ : Type) (test : Test σ) (s : σ),
      let visits := (visitCases test (Cases.ofText (Text.joinLines ended)).toList s).1
      (∀ v ∈ visits, v.fault? = none) →
      visits.map (·.sectionCase) = sectioned [] cases ∧
      run test (Text.joinLines ended) s =
        (if visits.all Visit.passed then .ok () else .error .failed,
          (sectioned [] cases).foldl
            (fun s c => ((test c.sectionName).run s c.testCase).state) s) := by
  obtain ⟨before, body, hlayout, hfilter⟩ := hlines
  have hcasesOf : Cases.ofText (Text.joinLines ended) = ⟨sectioned [] cases, none⟩ := by
    unfold Cases.ofText
    rw [Text.lines_joinLines hended, ← Cases.ofLines_filter, hfilter, Cases.ofLines_blanks,
      Cases.ofLines_layout hlayout hcases]
  refine ⟨hcasesOf, ?_⟩
  intro σ test s
  rw [hcasesOf]
  intro visits hvisits
  have hmet : visits.map (·.sectionCase) = sectioned [] cases := (visitCases_of_no_fault hvisits).1
  have hstate : (visitCases test (sectioned [] cases) s).2 = _ := (visitCases_of_no_fault hvisits).2
  -- There is a case, so the run does not end for the lack of one.
  have hne : visits.isEmpty = false := by
    have hsome := sectioned_ne_nil hlayout.ne_nil []
    rw [← hmet] at hsome
    simpa using hsome
  have hfault : visits.findSome? Visit.fault? = none := List.findSome?_eq_none_iff.mpr hvisits
  have houtcome : outcome visits none =
      if visits.all Visit.passed then .ok () else .error .failed := by
    simp only [outcome, hfault, hne]
    by_cases hall : visits.all Visit.passed <;> simp [hall]
  refine ⟨hmet, ?_⟩
  rw [← hstate, ← houtcome]
  unfold run
  rw [hcasesOf]

/-- Comments inside a case, a value with a separator in it, and a section that outlives its case. -/
theorem run_joinLines_two_cases :
    let first : WrittenCase := ⟨some "a]".toList, [("Key".toList, "b = c".toList), ([], "#".toList)]⟩
    let second : WrittenCase := ⟨none, [("Key".toList, "[".toList)]⟩
    let ended : List (List Char × Text.Ending) :=
      [([], .lf), ("[a]]".toList, .crlf), ("#[".toList, .lf), ("Key = b = c".toList, .lf),
        ("# = ".toList, .crlf), (" = #".toList, .crlf), ([], .crlf), ([], .lf),
        ("Key = [".toList, .lf)]
    let test : Test Nat := fun _ =>
      .getState fun n => .setState (n + 1) (.take "Key".toList fun _ => .done (.error .unspecified))
    (∀ c ∈ [first, second], c.WellFormed) ∧ (∀ l ∈ ended, l.2.Fits l.1) ∧
    CaseLines [first, second] (ended.map (·.1)) ∧
    run test (Text.joinLines ended) 0 = (.error .failed, 2) := by
  intro first second ended test
  have hcases : ∀ c ∈ [first, second], c.WellFormed := by
    intro c hc
    simp only [List.mem_cons, List.not_mem_nil, or_false] at hc
    rcases hc with rfl | rfl <;> constructor <;>
      simp [first, second, Trimmed, Text.trim, Text.trimLeft, Text.trimRight, Text.isBlank,
        Text.blanks]
  have hended : ∀ l ∈ ended, l.2.Fits l.1 := by
    simp [ended, Text.Ending.Fits]
  -- The first line is empty, and two empty lines separate the cases.
  have hlines : CaseLines [first, second] (ended.map (·.1)) :=
    ⟨1, _, .cons (show 0 < 2 by decide) (@Layout.last second 0), rfl⟩
  obtain ⟨hcasesOf, hruns⟩ := run_joinLines hcases hended hlines
  -- The test never gives up: it takes one name and returns an error.
  have hvisits : ∀ v ∈ (visitCases test (Cases.ofText (Text.joinLines ended)).toList 0).1,
      v.fault? = none := by
    rw [hcasesOf]
    decide
  refine ⟨hcases, hended, hlines, ?_⟩
  rw [(hruns Nat test 0 hvisits).2, hcasesOf]
  rfl

end SkeinHash.AttributeFile
