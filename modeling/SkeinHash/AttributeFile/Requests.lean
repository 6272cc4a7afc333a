import SkeinHash.AttributeFile.Run

/-!
# What a run asks for

A test passes on a case if it returns without an error and every attribute is taken. This module
says the same without a look at the marks of a case, by the names alone that the test asks for.

- `Script.requests`: the names that a script asks for
- `PassesOn`: each attribute is reached by one request
- `reached`: the cases that a run comes to
-/

namespace SkeinHash.AttributeFile

variable {σ α : Type}

/-- The names that a script asks for on a case, in order. A request that is refused counts, and so
    does one for an attribute that the case does not have. -/
def Script.requests : Script σ α → σ → TestCase → List (List Char)
  | done _, _, _ => []
  | abandon _, _, _ => []
  | getState next, s, c => (next s).requests s c
  | setState s next, _, c => next.requests s c
  | take name next, s, c =>
    name :: match c.take name with
      | .error _ => []
      | .ok (value, c) => (next value).requests s c
  | inspect next, s, c => (next c).requests s c

/-- A script does not give up on a case, whatever its verdict. -/
def ReturnsOn (script : Script σ (Except Unspecified Unit)) (s : σ) (c : TestCase) : Prop :=
  ∃ verdict, (script.run s c).result = .ok verdict

/-- A script returns without an error and meets each attribute of a case once. -/
structure PassesOn (script : Script σ (Except Unspecified Unit)) (s : σ) (c : TestCase) :
    Prop where
  /-- The script neither gives up nor returns an error. -/
  returns : (script.run s c).result = .ok (.ok ())
  /-- No two attributes have one name, so that a name stands for an attribute. -/
  distinct : c.names.Nodup
  /-- Each attribute is asked for once. -/
  once : ∀ name ∈ c.names, (script.requests s c).count name = 1

/-- The cases that a run over some cases comes to, up to the first one where the test gives up, each
    with the state in which the test starts on it. -/
def reached (test : Test σ) : List SectionCase → σ → List (SectionCase × σ)
  | [], _ => []
  | c :: rest, s =>
    let ending := (test c.sectionName).run s c.testCase
    (c, s) :: match ending.result with
      | .error _ => []
      | .ok _ => reached test rest ending.state

end SkeinHash.AttributeFile
