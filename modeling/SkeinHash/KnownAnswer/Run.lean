import SkeinHash.KnownAnswer.Reader

/-!
# Running a test over known answers

A test is run on every vector of a file that is not one of tree mode, in order and also after
failures. The run passes if the text can be read, holds a vector, and no test failed.
-/

namespace SkeinHash.KnownAnswer

/-- Why a run does not pass. -/
inductive RunFault where
  /-- The text cannot be read. -/
  | unreadable (cause : ReadError)
  /-- There are no vectors. -/
  | noVectors
  /-- The test failed on so many vectors. -/
  | failed (count : Nat)
deriving DecidableEq

/-- The message for a run over the file called `file`. A line that is not as it should be is
    reported without the name. -/
def RunFault.message (file : List Char) : RunFault → String
  | unreadable (.allocation cause) => String.ofList file ++ ": " ++ cause.message
  | unreadable cause => cause.message
  | noVectors => String.ofList file ++ ": No test vectors."
  | failed count => String.ofList file ++ ": " ++ toString count ++ " vector(s) failed."

variable {σ : Type}

/-- Runs a test on vectors in order. Returns how many failed, and the state afterwards. -/
def runVectors (test : KnownAnswer → σ → Except Unspecified Unit × σ) :
    List KnownAnswer → σ → Nat × σ
  | [], s => (0, s)
  | v :: rest, s =>
    let (verdict, s) := test v s
    let (failures, s) := runVectors test rest s
    ((if verdict.isOk then 0 else 1) + failures, s)

/-- Runs a test on the vectors of a text. Returns the outcome and the state afterwards. -/
def run (canReserve : Nat → Bool) (test : KnownAnswer → σ → Except Unspecified Unit × σ)
    (text : List Char) (s : σ) : Except RunFault Unit × σ :=
  match parse canReserve text with
  | .error e => (.error (.unreadable e), s)
  | .ok [] => (.error .noVectors, s)
  -- There may be none left to test, and then the run passes.
  | .ok vectors =>
    let (failures, s) := runVectors test (vectors.filter (!·.isTree)) s
    (if failures = 0 then .ok () else .error (.failed failures), s)

end SkeinHash.KnownAnswer
