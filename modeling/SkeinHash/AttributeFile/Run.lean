import SkeinHash.AttributeFile.Cases
import SkeinHash.AttributeFile.Script
import SkeinHash.Error

/-!
# Running a test over a file

A test is run on every case of a file, in order. A case passes if the test returns without an error
and has taken every attribute. A case that does not pass fails the run, and the cases after it are
run all the same; a test that gives up, or a line that breaks the format, ends the run at once.
A file without cases does not pass.
-/

namespace SkeinHash.AttributeFile

/-- What to do with each case, given the name of its section. -/
abbrev Test (σ : Type) := List Char → Script σ (Except Unspecified Unit)

variable {σ : Type}

/-- A case that a test was run on, and how that ended. -/
structure Visit (σ : Type) where
  /-- The case as it was read. -/
  sectionCase : SectionCase
  /-- How the test ended. -/
  ending : Script.Ending σ (Except Unspecified Unit)

namespace Visit

/-- Why the test gave up, if it did. -/
def fault? (v : Visit σ) : Option TestFault :=
  match v.ending.result with
  | .ok _ => none
  | .error fault => some fault

/-- Whether the case passed: the test returned without an error and took every attribute. -/
def passed (v : Visit σ) : Bool :=
  match v.ending.result with
  | .ok (.ok ()) => v.ending.testCase.allConsumed
  | _ => false

end Visit

/-- Runs a test on cases in order, up to the first one where it gives up. Returns the visits and the
    state afterwards. -/
def visitCases (test : Test σ) : List SectionCase → σ → List (Visit σ) × σ
  | [], s => ([], s)
  | c :: rest, s =>
    let v : Visit σ := ⟨c, (test c.sectionName).run s c.testCase⟩
    match v.fault? with
    -- The state is kept, the cases behind are not met.
    | some _ => ([v], v.ending.state)
    | none =>
      let (visits, s) := visitCases test rest v.ending.state
      (v :: visits, s)

/-- The outcome of a run, by its visits and the fault of the text, if it has one. -/
def outcome (visits : List (Visit σ)) (fault : Option SyntaxFault) : Except RunFault Unit :=
  -- Lines behind the case on which a test gave up have not been read, so it comes first.
  match visits.findSome? Visit.fault?, fault with
  | some fault, _ => .error (.abandoned fault)
  | none, some fault => .error (.malformed fault)
  | none, none =>
    if !visits.all Visit.passed then .error .failed
    else if visits.isEmpty then .error .noCases
    else .ok ()

/-- Runs a test on the cases of a text. Returns the outcome and the state afterwards. -/
def run (test : Test σ) (text : List Char) (s : σ) : Except RunFault Unit × σ :=
  let cases := Cases.ofText text
  let (visits, s) := visitCases test cases.toList s
  (outcome visits cases.fault, s)

end SkeinHash.AttributeFile
