import SkeinHash.AttributeFile.Requests
import SkeinHash.Proofs.CaseLayout

/-!
# A run that passes has taken every attribute once

A run passes only if every attribute of every case is reached by one request of the test, whatever
the test does. Two attributes of one name can never both be reached: asking for the name finds the
first, and asking again is refused.

What a case looks like while a test runs on it depends only on the names that the test has asked for
so far. An attribute is marked if its name is among them and no attribute before it has that name.

- `TestCase.take_asked`: what a request finds, and how the case looks after it
- `Script.testCase_run_asked`: how a case looks after a script that does not give up
- `run_passes_iff`: a run passes if the test passes on each case
-/

namespace SkeinHash.AttributeFile

/-! ## Cases of which some names were asked for -/

/-- No attribute was taken yet. -/
def NoneTaken (attributes : List Attribute) : Prop := ∀ a ∈ attributes, a.consumed = false

/-- Attributes of which the names in `asked` were asked for, where `seen` are the names of the
    attributes before them. -/
def askedFor (asked : List (List Char)) (seen : List (List Char)) :
    List Attribute → List Attribute
  | [] => []
  | a :: rest =>
    { a with consumed := decide (a.name ∈ asked ∧ a.name ∉ seen) } ::
      askedFor asked (a.name :: seen) rest

/-- A case of which some names were asked for. -/
def TestCase.asked (c : TestCase) (names : List (List Char)) : TestCase :=
  ⟨askedFor names [] c.attributes⟩

/-- The value that is reached by a name. -/
def TestCase.value? (c : TestCase) (name : List Char) : Option (List Char) :=
  (c.attributes.find? fun a => name = a.name).map (·.value)

/-- As long as nothing was asked for, nothing is marked. -/
theorem askedFor_nil {attributes : List Attribute} (h : NoneTaken attributes)
    (seen : List (List Char)) : askedFor [] seen attributes = attributes := by
  induction attributes generalizing seen with
  | nil => rfl
  | cons a rest ih =>
    obtain ⟨name, value, consumed⟩ := a
    obtain rfl : consumed = false := h _ List.mem_cons_self
    simp [askedFor, ih fun a ha => h a (List.mem_cons_of_mem _ ha)]

/-- Asking for a name that stands further ahead changes nothing. -/
theorem askedFor_append_of_mem {seen : List (List Char)} {name : List Char} (h : name ∈ seen)
    (asked : List (List Char)) (attributes : List Attribute) :
    askedFor (asked ++ [name]) seen attributes = askedFor asked seen attributes := by
  induction attributes generalizing seen with
  | nil => rfl
  | cons a rest ih =>
    -- An attribute of this name is not the first one, so its mark stays as well.
    have hhead : (a.name ∈ asked ++ [name] ∧ a.name ∉ seen) ↔ (a.name ∈ asked ∧ a.name ∉ seen) := by
      by_cases heq : a.name = name
      · simp [heq, h]
      · simp [heq]
    simp only [askedFor, hhead, ih (List.mem_cons_of_mem _ h)]

/-- A request finds the first attribute of its name and marks it, and is refused if there is one
    and the name was asked for before. -/
theorem takeFirst_askedFor {seen : List (List Char)} {name : List Char} (h : name ∉ seen)
    (asked : List (List Char)) (attributes : List Attribute) :
    takeFirst name (askedFor asked seen attributes) =
      if name ∈ asked ∧ name ∈ attributes.map (·.name) then .error (.alreadyConsumed name)
      else .ok ((attributes.find? fun a => name = a.name).map (·.value),
        askedFor (asked ++ [name]) seen attributes) := by
  induction attributes generalizing seen with
  | nil => simp [askedFor, takeFirst]
  | cons a rest ih =>
    by_cases heq : name = a.name
    · -- The name is this attribute's, and those behind it stay as they are.
      subst heq
      by_cases hasked : a.name ∈ asked
      · simp [askedFor, takeFirst, hasked, h]
      · simp [askedFor, takeFirst, hasked, h, askedFor_append_of_mem]
    · -- The name is looked for among the attributes behind, and the mark of this one stays.
      have hseen : name ∉ a.name :: seen := by simp [heq, h]
      have hmem : name ∈ (a :: rest).map (·.name) ↔ name ∈ rest.map (·.name) := by simp [heq]
      have hmark : a.name ∈ asked ++ [name] ↔ a.name ∈ asked := by simp [Ne.symm heq]
      simp only [askedFor, takeFirst, if_neg heq, ih hseen, hmem, hmark]
      split
      · rfl
      · simp [Except.map, heq]

/-- All attributes are marked if their names are distinct, were asked for, and are not hidden by
    attributes further ahead. -/
theorem all_consumed_askedFor (asked seen : List (List Char)) (attributes : List Attribute) :
    (askedFor asked seen attributes).all (·.consumed) = true ↔
      (attributes.map (·.name)).Nodup ∧
        ∀ name ∈ attributes.map (·.name), name ∈ asked ∧ name ∉ seen := by
  induction attributes generalizing seen with
  | nil => simp [askedFor]
  | cons a rest ih =>
    simp only [askedFor, List.all_cons, Bool.and_eq_true, decide_eq_true_eq, ih, List.map_cons,
      List.nodup_cons, List.mem_cons, not_or, forall_eq_or_imp]
    -- A name that stands twice would have to be asked for and be hidden by its first attribute.
    constructor
    · rintro ⟨hhead, hrest, hnames⟩
      exact ⟨⟨fun hmem => (hnames a.name hmem).2.1 rfl, hrest⟩, hhead,
        fun name hname => ⟨(hnames name hname).1, (hnames name hname).2.2⟩⟩
    · rintro ⟨⟨hnew, hrest⟩, hhead, hnames⟩
      refine ⟨hhead, hrest, fun name hname => ⟨(hnames name hname).1, ?_, (hnames name hname).2⟩⟩
      rintro rfl
      exact hnew hname

namespace TestCase

variable {c : TestCase}

theorem asked_nil (h : NoneTaken c.attributes) : c.asked [] = c := by
  simp only [asked, askedFor_nil h]

/-- A name finds the first attribute that has it, unless it was asked for before. -/
theorem take_asked (c : TestCase) (names : List (List Char)) (name : List Char) :
    (c.asked names).take name =
      if name ∈ names ∧ name ∈ c.names then .error (.alreadyConsumed name)
      else .ok (c.value? name, c.asked (names ++ [name])) := by
  simp only [take, asked, takeFirst_askedFor List.not_mem_nil, TestCase.names, value?,
    apply_ite (Except.map _)]
  rfl

/-- Every attribute is taken if all names were asked for, and there are no two of one name. -/
theorem allConsumed_asked (c : TestCase) (names : List (List Char)) :
    (c.asked names).allConsumed = true ↔ c.names.Nodup ∧ ∀ name ∈ c.names, name ∈ names := by
  rw [allConsumed, asked, all_consumed_askedFor]
  simp [TestCase.names]

end TestCase

/-! ## Scripts -/

namespace Script

variable {σ α : Type} {c : TestCase} {names : List (List Char)} {s : σ} {result : α}

/-- A request that is not refused finds a name that was not asked for before, or nothing, and the
    script goes on. -/
theorem run_take_asked {name : List Char} {next : Option (List Char) → Script σ α}
    (h : ((take name next).run s (c.asked names)).result = .ok result) :
    (name ∈ c.names → name ∉ names) ∧
    ((next (c.value? name)).run s (c.asked (names ++ [name]))).result = .ok result ∧
    ((take name next).run s (c.asked names)).testCase =
      ((next (c.value? name)).run s (c.asked (names ++ [name]))).testCase ∧
    (take name next).requests s (c.asked names) =
      name :: (next (c.value? name)).requests s (c.asked (names ++ [name])) := by
  -- A refused request ends the script with an error, against the assumption.
  by_cases hrefused : name ∈ names ∧ name ∈ c.names
  · simp [run, TestCase.take_asked, hrefused] at h
  · have htake := c.take_asked names name
    rw [if_neg hrefused] at htake
    refine ⟨fun hmem hasked => hrefused ⟨hasked, hmem⟩, ?_⟩
    simp only [run, requests, htake] at h ⊢
    cases hvalue : c.value? name with
    | none => simpa [hvalue] using h
    | some value => simpa [hvalue] using h

/-- What a script that does not give up leaves of a case. -/
theorem testCase_run_asked {script : Script σ α}
    (h : (script.run s (c.asked names)).result = .ok result) :
    (script.run s (c.asked names)).testCase =
      c.asked (names ++ script.requests s (c.asked names)) := by
  -- For all names at once, since each request adds its own to those before.
  induction script generalizing s names with
  | done _ => simp [run, requests]
  | abandon _ => cases h
  | getState _ ih => exact ih s h
  | setState _ _ ih => exact ih h
  | inspect _ ih => exact ih _ h
  | take name next ih =>
    obtain ⟨-, hnext, htestCase, hrequests⟩ := run_take_asked h
    rw [htestCase, ih _ hnext, hrequests, List.append_assoc, List.singleton_append]

/-- A script that does not give up asks for no attribute twice. -/
theorem count_requests_le {script : Script σ α} {name : List Char} (hmem : name ∈ c.names)
    (h : (script.run s (c.asked names)).result = .ok result) (hnames : names.count name ≤ 1) :
    (names ++ script.requests s (c.asked names)).count name ≤ 1 := by
  induction script generalizing s names with
  | done _ => simpa [requests] using hnames
  | abandon _ => cases h
  | getState _ ih => exact ih s h hnames
  | setState _ _ ih => exact ih h hnames
  | inspect _ ih => exact ih _ h hnames
  | take other next ih =>
    obtain ⟨hnew, hnext, -, hrequests⟩ := run_take_asked h
    -- A name that was asked for before is not asked for again, as that would be refused.
    have hcount : (names ++ [other]).count name ≤ 1 := by
      by_cases heq : other = name
      · subst heq
        simp [List.count_eq_zero_of_not_mem (hnew hmem)]
      · simpa [heq] using hnames
    rw [hrequests, ← List.singleton_append, ← List.append_assoc]
    exact ih _ hnext hcount

/-- A script that does not give up takes every attribute if it asks for each of them once, and no
    two have one name. -/
theorem allConsumed_run_iff (hfresh : NoneTaken c.attributes) {script : Script σ α}
    (h : (script.run s c).result = .ok result) :
    (script.run s c).testCase.allConsumed = true ↔
      c.names.Nodup ∧ ∀ name ∈ c.names, (script.requests s c).count name = 1 := by
  have hasked : c.asked [] = c := TestCase.asked_nil hfresh
  rw [← hasked] at h
  have hleft := testCase_run_asked h
  -- No attribute is asked for twice, so that to be asked for is to be asked for once.
  have hle : ∀ name ∈ c.names, ([] ++ script.requests s (c.asked [])).count name ≤ 1 :=
    fun name hmem => count_requests_le hmem h (by simp)
  rw [hasked, List.nil_append] at hleft hle
  rw [hleft, TestCase.allConsumed_asked]
  refine and_congr_right fun _ => forall₂_congr fun name hmem => ?_
  have hcount := hle name hmem
  rw [← List.count_pos_iff]
  omega

end Script

/-! ## Verdicts -/

section Verdicts

variable {σ : Type} {test : Test σ}

/-- A test passes on a case if it returns without an error and has taken every attribute. -/
theorem Visit.passed_iff (v : Visit σ) :
    v.passed = true ↔ v.ending.result = .ok (.ok ()) ∧ v.ending.testCase.allConsumed = true := by
  unfold Visit.passed
  split
  next hresult => simp [hresult]
  next hresult => simpa using fun h => absurd h hresult

/-- A visit ends the run only if the test gives up. -/
theorem Visit.fault?_eq_none_iff (v : Visit σ) :
    v.fault? = none ↔ ∃ verdict, v.ending.result = .ok verdict := by
  unfold Visit.fault?
  split <;> simp [*]

/-- How a test ends on a case, from a state. -/
def Test.visit (test : Test σ) (v : SectionCase × σ) : Visit σ :=
  ⟨v.1, (test v.1.sectionName).run v.2 v.1.testCase⟩

/-- The verdict on a case that nothing was taken of depends on the names alone that the test asks
    for. -/
theorem passed_visit_iff {v : SectionCase × σ} (hfresh : NoneTaken v.1.testCase.attributes) :
    (test.visit v).passed = true ↔ PassesOn (test v.1.sectionName) v.2 v.1.testCase := by
  rw [Visit.passed_iff]
  constructor
  · rintro ⟨hreturns, hall⟩
    obtain ⟨hdistinct, honce⟩ := (Script.allConsumed_run_iff hfresh hreturns).mp hall
    exact ⟨hreturns, hdistinct, honce⟩
  · rintro ⟨hreturns, hdistinct, honce⟩
    exact ⟨hreturns, (Script.allConsumed_run_iff hfresh hreturns).mpr ⟨hdistinct, honce⟩⟩

/-- The outcome of visits where no test gave up, over a text without a fault. -/
theorem outcome_cases {visits : List (Visit σ)} (h : ∀ v ∈ visits, v.fault? = none) :
    (outcome visits none = .error .failed ∧ ∃ v ∈ visits, v.passed = false) ∨
    (outcome visits none = .error .noCases ∧ visits = []) ∨
    (outcome visits none = .ok () ∧ visits ≠ [] ∧ ∀ v ∈ visits, v.passed = true) := by
  have hnone : visits.findSome? Visit.fault? = none := List.findSome?_eq_none_iff.mpr h
  -- A failed verdict counts before the question whether there are cases.
  by_cases hpassed : visits.all Visit.passed = true
  · by_cases hempty : visits = []
    · exact .inr (.inl ⟨by simp [outcome, hempty], hempty⟩)
    · exact .inr (.inr ⟨by simp [outcome, hnone, hpassed, hempty], hempty,
        List.all_eq_true.mp hpassed⟩)
  · exact .inl ⟨by simp [outcome, hnone, hpassed], by simpa using hpassed⟩

/-- A run passes if there was no fault, there was a case, and every visit passed. -/
theorem outcome_eq_ok_iff {visits : List (Visit σ)} {fault : Option SyntaxFault} :
    outcome visits fault = .ok () ↔ fault = none ∧ visits ≠ [] ∧ ∀ v ∈ visits, v.passed = true := by
  cases hfind : visits.findSome? Visit.fault? with
  | some cause =>
    -- The visit where the test gave up did not pass.
    obtain ⟨v, hv, hcause⟩ := List.exists_of_findSome?_eq_some hfind
    have hpassed : v.passed ≠ true := fun h => by
      have hnone := v.fault?_eq_none_iff.mpr ⟨_, (v.passed_iff.mp h).1⟩
      rw [hcause] at hnone
      cases hnone
    simp only [outcome, hfind, reduceCtorEq, false_iff]
    exact fun h => hpassed (h.2.2 v hv)
  | none =>
    cases fault with
    | some cause => simp [outcome, hfind]
    | none =>
      rcases outcome_cases (List.findSome?_eq_none_iff.mp hfind) with
        ⟨hended, v, hv, hpassed⟩ | ⟨hended, hempty⟩ | ⟨hended, hne, hpassed⟩
      · simpa [hended] using fun _ => ⟨v, hv, hpassed⟩
      · subst hempty
        simp [hended]
      · simpa [hended, hne] using hpassed

/-! ## Runs -/

/-- The case that ends with some attributes has those. -/
theorem Cases.noneTaken_close {sectionName : List Char} {attributes : List Attribute}
    (h : NoneTaken attributes) :
    ∀ c ∈ close sectionName attributes, NoneTaken c.testCase.attributes := by
  unfold close
  split
  · simp
  · simpa using h

/-- No attribute that is read from lines is taken. -/
theorem Cases.noneTaken_ofLines {sectionName : List Char} {attributes : List Attribute}
    (h : NoneTaken attributes) (lines : List (List Char)) :
    ∀ c ∈ (ofLines sectionName attributes lines).toList, NoneTaken c.testCase.attributes := by
  induction lines generalizing sectionName attributes with
  | nil => exact noneTaken_close h
  | cons text rest ih =>
    unfold ofLines
    split
    · simp
    · -- An empty line closes the case, and the next one starts without attributes.
      intro c hc
      rcases List.mem_append.mp hc with hc | hc
      · exact noneTaken_close h c hc
      · exact ih (by simp [NoneTaken]) c hc
    · exact ih h
    · exact ih h
    · -- A new attribute is not taken, like those before it.
      refine ih fun a ha => ?_
      rcases List.mem_append.mp ha with ha | ha
      · exact h a ha
      · rw [List.mem_singleton.mp ha]

/-- A case is read with nothing taken. -/
theorem Cases.noneTaken_ofText {text : List Char} :
    ∀ c ∈ (ofText text).toList, NoneTaken c.testCase.attributes :=
  noneTaken_ofLines (by simp [NoneTaken]) _

/-- The visits of a run are what the test does on the cases that are reached. -/
theorem visitCases_eq_map (cases : List SectionCase) (s : σ) :
    (visitCases test cases s).1 = (reached test cases s).map test.visit := by
  induction cases generalizing s with
  | nil => rfl
  | cons c rest ih =>
    unfold visitCases reached
    -- Both stop at the first case on which the test gives up.
    cases hresult : ((test c.sectionName).run s c.testCase).result with
    | error fault => simp [Visit.fault?, hresult, Test.visit]
    | ok verdict => simp [Visit.fault?, hresult, Test.visit, ih]

theorem fst_mem_of_mem_reached {cases : List SectionCase} {s : σ} {v : SectionCase × σ}
    (h : v ∈ reached test cases s) : v.1 ∈ cases := by
  induction cases generalizing s with
  | nil => cases h
  | cons c rest ih =>
    unfold reached at h
    rcases List.mem_cons.mp h with rfl | h
    · exact List.mem_cons_self
    · -- The cases behind are reached only if the test did not give up.
      split at h
      · cases h
      · exact List.mem_cons_of_mem _ (ih h)

/-- The first case is always reached. -/
theorem reached_eq_nil_iff {cases : List SectionCase} {s : σ} :
    reached test cases s = [] ↔ cases = [] := by
  cases cases <;> simp [reached]

/-- How a run ends is decided by the cases that are reached and by the fault of the text. -/
theorem run_fst (test : Test σ) (text : List Char) (s : σ) :
    (run test text s).1 =
      outcome ((reached test (Cases.ofText text).toList s).map test.visit)
        (Cases.ofText text).fault := by
  rw [← visitCases_eq_map]
  rfl

/-- The verdict on a case that is reached. -/
theorem passed_of_mem_reached {text : List Char} {s : σ} {v : SectionCase × σ}
    (h : v ∈ reached test (Cases.ofText text).toList s) :
    (test.visit v).passed = true ↔ PassesOn (test v.1.sectionName) v.2 v.1.testCase :=
  passed_visit_iff (Cases.noneTaken_ofText _ (fst_mem_of_mem_reached h))

/-- A run passes if the test passes on all cases that are reached, and there are some. -/
theorem run_eq_ok_iff (test : Test σ) (text : List Char) (s : σ) :
    (run test text s).1 = .ok () ↔
      (Cases.ofText text).fault = none ∧ (Cases.ofText text).toList ≠ [] ∧
        ∀ v ∈ reached test (Cases.ofText text).toList s,
          PassesOn (test v.1.sectionName) v.2 v.1.testCase := by
  rw [run_fst, outcome_eq_ok_iff, List.forall_mem_map]
  refine and_congr_right fun _ => and_congr ?_ (forall₂_congr fun v hv => passed_of_mem_reached hv)
  rw [ne_eq, List.map_eq_nil_iff, reached_eq_nil_iff]

/-- If no test gives up, then no visit has a fault. -/
theorem fault?_eq_none_of_returns {cases : List SectionCase} {s : σ}
    (h : ∀ v ∈ reached test cases s, ReturnsOn (test v.1.sectionName) v.2 v.1.testCase) :
    ∀ v ∈ (reached test cases s).map test.visit, v.fault? = none := by
  rw [List.forall_mem_map]
  exact fun v hv => (Visit.fault?_eq_none_iff _).mpr (h v hv)

/-- A run in which no test gives up comes to every case. -/
theorem map_fst_reached {cases : List SectionCase} {s : σ}
    (h : ∀ v ∈ reached test cases s, ReturnsOn (test v.1.sectionName) v.2 v.1.testCase) :
    (reached test cases s).map Prod.fst = cases := by
  have hvisits := fault?_eq_none_of_returns h
  rw [← visitCases_eq_map] at hvisits
  have hcases := (visitCases_of_no_fault hvisits).1
  rw [visitCases_eq_map, List.map_map] at hcases
  exact hcases

/-- How a run ends in which no test gives up. -/
theorem run_cases {text : List Char} {s : σ} (hfault : (Cases.ofText text).fault = none)
    (h : ∀ v ∈ reached test (Cases.ofText text).toList s,
      ReturnsOn (test v.1.sectionName) v.2 v.1.testCase) :
    ((run test text s).1 = .error .failed ∧ (Cases.ofText text).toList ≠ [] ∧
      ∃ v ∈ reached test (Cases.ofText text).toList s,
        ¬ PassesOn (test v.1.sectionName) v.2 v.1.testCase) ∨
    ((run test text s).1 = .error .noCases ∧ (Cases.ofText text).toList = [] ∧
      reached test (Cases.ofText text).toList s = []) ∨
    ((run test text s).1 = .ok () ∧ (Cases.ofText text).toList ≠ [] ∧
      ∀ v ∈ reached test (Cases.ofText text).toList s,
        PassesOn (test v.1.sectionName) v.2 v.1.testCase) := by
  rw [run_fst, hfault]
  -- The three ways in which visits without a fault end are those of the run.
  rcases outcome_cases (fault?_eq_none_of_returns h) with
    ⟨hended, hfailed⟩ | ⟨hended, hempty⟩ | ⟨hended, hne, hpassed⟩
  · obtain ⟨_, hvisit, hpassed⟩ := hfailed
    obtain ⟨v, hv, rfl⟩ := List.mem_map.mp hvisit
    rw [← Bool.not_eq_true, passed_of_mem_reached hv] at hpassed
    exact .inl ⟨hended, List.ne_nil_of_mem (fst_mem_of_mem_reached hv), v, hv, hpassed⟩
  · have hnil := List.map_eq_nil_iff.mp hempty
    exact .inr (.inl ⟨hended, reached_eq_nil_iff.mp hnil, hnil⟩)
  · rw [ne_eq, List.map_eq_nil_iff, reached_eq_nil_iff] at hne
    rw [List.forall_mem_map] at hpassed
    exact .inr (.inr ⟨hended, hne, fun v hv => (passed_of_mem_reached hv).mp (hpassed v hv)⟩)

/-- A case that fails shows at the end of the run. -/
theorem run_eq_failed_iff {text : List Char} {s : σ} (hfault : (Cases.ofText text).fault = none)
    (h : ∀ v ∈ reached test (Cases.ofText text).toList s,
      ReturnsOn (test v.1.sectionName) v.2 v.1.testCase) :
    (run test text s).1 = .error .failed ↔
      ∃ v ∈ reached test (Cases.ofText text).toList s,
        ¬ PassesOn (test v.1.sectionName) v.2 v.1.testCase := by
  rcases run_cases hfault h with ⟨hended, -, hfails⟩ | ⟨hended, -, hnil⟩ | ⟨hended, -, hpass⟩
  · exact iff_of_true hended hfails
  · rw [hended, hnil]
    exact iff_of_false nofun nofun
  · rw [hended]
    exact iff_of_false nofun fun ⟨v, hv, hfails⟩ => hfails (hpass v hv)

/-- A text without cases shows at the end of the run. -/
theorem run_eq_noCases_iff {text : List Char} {s : σ} (hfault : (Cases.ofText text).fault = none)
    (h : ∀ v ∈ reached test (Cases.ofText text).toList s,
      ReturnsOn (test v.1.sectionName) v.2 v.1.testCase) :
    (run test text s).1 = .error .noCases ↔ (Cases.ofText text).toList = [] := by
  rcases run_cases hfault h with ⟨hended, hne, -⟩ | ⟨hended, hempty, -⟩ | ⟨hended, hne, -⟩
  · rw [hended]
    exact iff_of_false nofun hne
  · exact iff_of_true hended hempty
  · rw [hended]
    exact iff_of_false nofun hne

/-- The two faults of a whole file are told apart by their messages. -/
theorem mapError_message_iff {ended : Except RunFault Unit}
    (h : ended = .error .failed ∨ ended = .error .noCases ∨ ended = .ok ()) (file : List Char) :
    (ended.mapError (RunFault.message file) = .error (file ++ ": Test failed.".toList) ↔
      ended = .error .failed) ∧
    (ended.mapError (RunFault.message file) = .error (file ++ ": No test cases.".toList) ↔
      ended = .error .noCases) := by
  rcases h with rfl | rfl | rfl <;> simp [Except.mapError, RunFault.message]

theorem exists_error_of_ne_ok {ended : Except RunFault Unit} (h : ended ≠ .ok ()) :
    ∃ cause, ended = .error cause := by
  cases ended with
  | error cause => exact ⟨cause, rfl⟩
  | ok result => exact absurd rfl h

/-- **A run that passes has met every attribute once.** A run passes if the text has no fault, there
    is a case, and the test on every case returns without an error and asks once for each attribute,
    no two of which have one name. So a case with a repeated name fails every run, and so does one
    with an attribute that is asked for twice or not at all. As long as no test gives up the cases
    are all come to, whatever the earlier verdicts, and over a text without a fault the message at
    the end says whether some case failed and whether there are cases. -/
theorem run_passes_iff (test : Test σ) (text : List Char) (s : σ) :
    let cases := Cases.ofText text
    let visits := reached test cases.toList s
    let ended := (run test text s).1
    (ended = .ok () ↔
      cases.fault = none ∧ cases.toList ≠ [] ∧ visits.map Prod.fst = cases.toList ∧
        ∀ v ∈ visits, PassesOn (test v.1.sectionName) v.2 v.1.testCase) ∧
    (∀ c ∈ cases.toList, ¬ c.testCase.names.Nodup → ∃ cause, ended = .error cause) ∧
    (∀ v ∈ visits, ∀ name ∈ v.1.testCase.names,
      ((test v.1.sectionName).requests v.2 v.1.testCase).count name ≠ 1 →
        ∃ cause, ended = .error cause) ∧
    ((∀ v ∈ visits, ReturnsOn (test v.1.sectionName) v.2 v.1.testCase) →
      visits.map Prod.fst = cases.toList) ∧
    (cases.fault = none →
      (∀ v ∈ visits, ReturnsOn (test v.1.sectionName) v.2 v.1.testCase) → ∀ file : List Char,
      (ended.mapError (RunFault.message file) = .error (file ++ ": Test failed.".toList) ↔
        ∃ v ∈ visits, ¬ PassesOn (test v.1.sectionName) v.2 v.1.testCase) ∧
      (ended.mapError (RunFault.message file) = .error (file ++ ": No test cases.".toList) ↔
        cases.toList = [])) := by
  intro cases visits ended
  have hok : ended = .ok () ↔ cases.fault = none ∧ cases.toList ≠ [] ∧
      ∀ v ∈ visits, PassesOn (test v.1.sectionName) v.2 v.1.testCase := run_eq_ok_iff test text s
  have hall : (∀ v ∈ visits, PassesOn (test v.1.sectionName) v.2 v.1.testCase) →
      visits.map Prod.fst = cases.toList :=
    fun h => map_fst_reached fun v hv => ⟨_, (h v hv).returns⟩
  -- Every part but the last follows from when the run passes.
  refine ⟨?_, ?_, ?_, map_fst_reached, ?_⟩
  · rw [hok]
    exact ⟨fun ⟨hfault, hne, hpass⟩ => ⟨hfault, hne, hall hpass, hpass⟩,
      fun ⟨hfault, hne, _, hpass⟩ => ⟨hfault, hne, hpass⟩⟩
  · intro c hc hrepeated
    refine exists_error_of_ne_ok fun h => ?_
    obtain ⟨-, -, hpass⟩ := hok.mp h
    rw [← hall hpass] at hc
    obtain ⟨v, hv, rfl⟩ := List.mem_map.mp hc
    exact hrepeated (hpass v hv).distinct
  · intro v hv name hname hcount
    refine exists_error_of_ne_ok fun h => ?_
    obtain ⟨-, -, hpass⟩ := hok.mp h
    exact hcount ((hpass v hv).once name hname)
  · intro hfault hreturns file
    have hends : ended = .error .failed ∨ ended = .error .noCases ∨ ended = .ok () := by
      rcases run_cases hfault hreturns with ⟨hended, -⟩ | ⟨hended, -⟩ | ⟨hended, -⟩
      · exact .inl hended
      · exact .inr (.inl hended)
      · exact .inr (.inr hended)
    obtain ⟨hfailed, hnoCases⟩ := mapError_message_iff hends file
    exact ⟨hfailed.trans (run_eq_failed_iff hfault hreturns),
      hnoCases.trans (run_eq_noCases_iff hfault hreturns)⟩

/-- A case whose second attribute cannot be reached, before one that passes. -/
theorem run_passes_iff_repeated_name :
    let text := "A = 1\nA = 2\n\nB = 3".toList
    let cases := Cases.ofText text
    let test : Test Nat := fun _ =>
      .getState fun n => .setState (n + 1)
        (.take "A".toList fun _ => .take "B".toList fun _ => .done (.ok ()))
    let visits := reached test cases.toList 0
    cases.fault = none ∧
    (∀ v ∈ visits, ReturnsOn (test v.1.sectionName) v.2 v.1.testCase) ∧
    visits.map Prod.fst = cases.toList ∧ visits.map Prod.snd = [0, 1] ∧
    (∃ c ∈ cases.toList, ¬ c.testCase.names.Nodup) ∧
    (run test text 0).1.mapError (RunFault.message "f".toList) =
      .error "f: Test failed.".toList := by
  intro text cases test visits
  let first : SectionCase := ⟨[], ⟨[⟨['A'], ['1'], false⟩, ⟨['A'], ['2'], false⟩]⟩⟩
  let second : SectionCase := ⟨[], ⟨[⟨['B'], ['3'], false⟩]⟩⟩
  have hcases : cases = ⟨[first, second], none⟩ := by decide
  have hfault : cases.fault = none := by rw [hcases]
  -- The first visit leaves the state one higher for the second.
  have hvisits : visits = [(first, 0), (second, 1)] := by
    simp only [visits, hcases]
    rfl
  have hreturns : ∀ v ∈ visits, ReturnsOn (test v.1.sectionName) v.2 v.1.testCase := by
    rw [hvisits, List.forall_mem_cons, List.forall_mem_singleton]
    exact ⟨⟨.ok (), rfl⟩, ⟨.ok (), rfl⟩⟩
  have hfirst : (first, 0) ∈ visits := by
    rw [hvisits]
    exact List.mem_cons_self
  have hrepeated : ¬ first.testCase.names.Nodup := by decide
  -- Whatever the test asks for, it cannot take both attributes.
  have hfails : ¬ PassesOn (test first.sectionName) 0 first.testCase :=
    fun h => hrepeated h.distinct
  obtain ⟨-, -, -, hmet, hmessage⟩ := run_passes_iff test text 0
  refine ⟨hfault, hreturns, hmet hreturns, by rw [hvisits]; rfl,
    ⟨first, by rw [hcases]; exact List.mem_cons_self, hrepeated⟩, ?_⟩
  exact (hmessage hfault hreturns _).1.mpr ⟨(first, 0), hfirst, hfails⟩

end Verdicts

end SkeinHash.AttributeFile
