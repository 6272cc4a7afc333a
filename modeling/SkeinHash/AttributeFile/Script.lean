import SkeinHash.AttributeFile.TestCase
import SkeinHash.Algorithm
import SkeinHash.Text.Decimal

/-!
# What a test does with a case

A test reads a case through a `Script`: it asks for attributes one after the other, and what it asks
for may hang on what it has read. A script cannot change a case but by taking attributes. It keeps a
state of the test's own, which outlives the case, also when the test gives up.

- `Script.optionalString`, `string`: the value as it is written
- `Script.optionalBytes`, `bytes`: a quoted text or hexadecimal digits
- `Script.integer`: a decimal number
- `Script.algorithm`: the algorithm of a given name
-/

namespace SkeinHash.AttributeFile

/-- A test's dealings with one case, with a state of type `σ`. -/
inductive Script (σ α : Type) where
  /-- The script ends. -/
  | done (result : α)
  /-- The test gives up. -/
  | abandon (fault : TestFault)
  /-- Reads the state. -/
  | getState (next : σ → Script σ α)
  /-- Replaces the state. -/
  | setState (state : σ) (next : Script σ α)
  /-- Takes an attribute. -/
  | take (name : List Char) (next : Option (List Char) → Script σ α)
  /-- Looks at the case as it stands. -/
  | inspect (next : TestCase → Script σ α)

namespace Script

variable {σ α β : Type}

/-- Goes on with what a script results in. -/
def bind : Script σ α → (α → Script σ β) → Script σ β
  | done result, f => f result
  | abandon fault, _ => abandon fault
  | getState next, f => getState fun s => (next s).bind f
  | setState s next, f => setState s (next.bind f)
  | take name next, f => take name fun value => (next value).bind f
  | inspect next, f => inspect fun c => (next c).bind f

instance : Monad (Script σ) where
  pure := done
  bind := bind

/-- How a script ends. -/
structure Ending (σ α : Type) where
  /-- The result, or why the script gave up. -/
  result : Except TestFault α
  /-- The state afterwards. -/
  state : σ
  /-- The case afterwards. -/
  testCase : TestCase
  /-- The names of the attributes that were taken, in order. -/
  taken : List (List Char)

/-- Runs a script on a case. -/
def run : Script σ α → σ → TestCase → Ending σ α
  | done result, s, c => ⟨.ok result, s, c, []⟩
  | abandon fault, s, c => ⟨.error fault, s, c, []⟩
  | getState next, s, c => (next s).run s c
  | setState s next, _, c => next.run s c
  | take name next, s, c =>
    match c.take name with
    | .error fault => ⟨.error fault, s, c, []⟩
    -- A name that finds nothing has not been taken.
    | .ok (none, c) => (next none).run s c
    | .ok (some value, c) =>
      let ending := (next (some value)).run s c
      { ending with taken := name :: ending.taken }
  | inspect next, s, c => (next c).run s c

/-! ## Values -/

/-- Goes on with a value, or gives up. -/
def ofExcept : Except TestFault α → Script σ α
  | .ok value => done value
  | .error fault => abandon fault

/-- The value of an attribute that must be there. -/
def required (name : List Char) (value : Script σ (Option α)) : Script σ α := do
  match ← value with
  | some v => return v
  | none => abandon (.missing name)

/-- Reads bytes: a text in quotes stands for its UTF-8 form, without any escapes, and any other
    value is hexadecimal. -/
def bytesOfValue (value : List Char) : Except TestFault Bytes :=
  match value with
  | '"' :: rest =>
    -- The closing quote is another one than the opening quote.
    if rest.getLast? = some '"' then .ok (rest.dropLast.flatMap String.utf8EncodeChar)
    else .error (.unclosedQuote value)
  | _ => (Text.Hex.decode value).mapError fun cause => .badHex cause value

/-- The value of an attribute, if the case has it. -/
def optionalString (name : List Char) : Script σ (Option (List Char)) := take name done

/-- The value of an attribute. -/
def string (name : List Char) : Script σ (List Char) := required name (optionalString name)

/-- The bytes that an attribute stands for, if the case has it. -/
def optionalBytes (name : List Char) : Script σ (Option Bytes) := do
  match ← optionalString name with
  | none => return none
  | some value => return some (← ofExcept (bytesOfValue value))

/-- The bytes that an attribute stands for. -/
def bytes (name : List Char) : Script σ Bytes := required name (optionalBytes name)

/-- The number that an attribute stands for. -/
def integer (name : List Char) : Script σ Nat := do
  let value ← string name
  match Text.Decimal.parse? value with
  | some n => return n
  | none => abandon (.badInteger value name)

/-- The algorithm that an attribute names. -/
def algorithm (name : List Char) : Script σ Algorithm := do
  let value ← string name
  match Algorithm.ofName? (String.ofList value) with
  | some a => return a
  | none => abandon (.unknownAlgorithm value)

end Script

end SkeinHash.AttributeFile
