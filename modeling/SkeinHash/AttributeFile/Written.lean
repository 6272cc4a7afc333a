import SkeinHash.AttributeFile.Cases

/-!
# Written test cases

The forms in which a list of test cases can be written: each case as a block of lines, at least one
empty line between two blocks, any number of them at both ends, and comments anywhere.

- `WrittenCase.WellFormed`: the cases that can be written
- `Layout`: the lines without the comments
- `sectioned`: the cases that a reader meets
-/

namespace SkeinHash.AttributeFile

/-- A case as it is written. -/
structure WrittenCase where
  /-- The section that starts with the case, if one does. -/
  sectionName : Option (List Char)
  /-- The names and values. -/
  attributes : List (List Char × List Char)

/-- Text without white space at its ends. -/
def Trimmed (text : List Char) : Prop := Text.trim text = text

namespace WrittenCase

/-- A case can be written if it has an attribute and its texts do not look like anything else. -/
structure WellFormed (c : WrittenCase) : Prop where
  nonempty : c.attributes ≠ []
  name_trimmed : ∀ a ∈ c.attributes, Trimmed a.1
  value_trimmed : ∀ a ∈ c.attributes, Trimmed a.2
  value_nonempty : ∀ a ∈ c.attributes, a.2 ≠ []
  no_lineFeed : ∀ a ∈ c.attributes, '\n' ∉ a.1 ∧ '\n' ∉ a.2
  no_separator : ∀ a ∈ c.attributes, '=' ∉ a.1
  name_start : ∀ a ∈ c.attributes, a.1.head? ≠ some '#' ∧ a.1.head? ≠ some '['
  section_no_lineFeed : ∀ name, c.sectionName = some name → '\n' ∉ name

/-- The line that starts a section. -/
def headingText (name : List Char) : List Char := '[' :: name ++ [']']

/-- The line of an attribute. -/
def attributeText (a : List Char × List Char) : List Char := a.1 ++ " = ".toList ++ a.2

/-- The lines of a case. -/
def lines (c : WrittenCase) : List (List Char) :=
  (c.sectionName.map headingText).toList ++ c.attributes.map attributeText

/-- The case as a reader meets it. -/
def testCase (c : WrittenCase) : TestCase := ⟨c.attributes.map fun a => ⟨a.1, a.2, false⟩⟩

end WrittenCase

/-- A comment line. -/
def isComment (text : List Char) : Bool := text.head? == some '#'

/-- The lines of cases, without comments. -/
inductive Layout : List WrittenCase → List (List Char) → Prop where
  | last {c : WrittenCase} {after : Nat} : Layout [c] (c.lines ++ List.replicate after [])
  | cons {c : WrittenCase} {cases : List WrittenCase} {between : Nat} {rest : List (List Char)} :
      0 < between → Layout cases rest →
      Layout (c :: cases) (c.lines ++ List.replicate between [] ++ rest)

/-- The lines of a file of cases. -/
def CaseLines (cases : List WrittenCase) (text : List (List Char)) : Prop :=
  ∃ before body, Layout cases body ∧
    text.filter (fun line => !isComment line) = List.replicate before [] ++ body

/-- Cases with the names of their sections: a section holds until the next one starts. -/
def sectioned (name : List Char) : List WrittenCase → List SectionCase
  | [] => []
  | c :: rest =>
    let name := c.sectionName.getD name
    ⟨name, c.testCase⟩ :: sectioned name rest

end SkeinHash.AttributeFile
