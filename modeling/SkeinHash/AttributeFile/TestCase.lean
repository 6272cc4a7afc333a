import SkeinHash.AttributeFile.Fault
import SkeinHash.Description

/-!
# Test cases

A test case is a list of named values, its attributes. A test takes the values that it needs by
name. Each can be taken once: a taken attribute is marked, and asking for it again is a fault. Of
several attributes with one name only the first can be reached.
-/

namespace SkeinHash.AttributeFile

/-- A named value. -/
structure Attribute where
  /-- The name. -/
  name : List Char
  /-- The value, as it is written. -/
  value : List Char
  /-- Whether the value has been taken. -/
  consumed : Bool
deriving DecidableEq

/-- The attributes of one case, in the order of the file. -/
structure TestCase where
  /-- The attributes. -/
  attributes : List Attribute
deriving DecidableEq

/-- An attribute is shown as its name, its value and whether it has been taken. -/
def Attribute.describe (a : Attribute) : Description :=
  .tuple "" [.text a.name, .text a.value, .atom (if a.consumed then "true" else "false")]

/-- Takes the first attribute of a list that has the name. -/
def takeFirst (name : List Char) :
    List Attribute → Except TestFault (Option (List Char) × List Attribute)
  | [] => .ok (none, [])
  | a :: rest =>
    if name = a.name then
      -- A second attribute of the name is out of reach, taken or not.
      if a.consumed then .error (.alreadyConsumed name)
      else .ok (some a.value, { a with consumed := true } :: rest)
    else (takeFirst name rest).map fun (value, rest) => (value, a :: rest)

namespace TestCase

/-- Takes the value of an attribute, if the case has one of that name. Returns the value and the
    case with the attribute marked. -/
def take (c : TestCase) (name : List Char) : Except TestFault (Option (List Char) × TestCase) :=
  (takeFirst name c.attributes).map fun (value, attributes) => (value, ⟨attributes⟩)

/-- Whether every attribute has been taken. -/
def allConsumed (c : TestCase) : Bool := c.attributes.all (·.consumed)

/-- The names of the attributes. -/
def names (c : TestCase) : List (List Char) := c.attributes.map (·.name)

/-- A case is shown with all its attributes. -/
def describe (c : TestCase) : Description :=
  .record "TestCase" [("attributes", .list (c.attributes.map Attribute.describe))] false

end TestCase

end SkeinHash.AttributeFile
