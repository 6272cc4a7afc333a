import SkeinHash.AttributeFile.TestCase
import SkeinHash.Text.Blank
import SkeinHash.Text.Lines
import SkeinHash.Text.Split

/-!
# The cases of an attribute file

A file holds test cases, separated by empty lines:

```text
# A line that starts with a number sign is skipped.

[Section]

Name = value
Other = "text"
```

An attribute is a name and a value around the first ` = ` of its line, both trimmed; the value is
not empty. A section line stands before the first attribute of a case, and its section holds for
that case and all later ones until the next section line.

`Cases.ofText` reads the cases up to the first line that breaks the format, and says what is wrong
with that line: whoever goes through the cases meets them before the fault.
-/

namespace SkeinHash.AttributeFile

/-! ## Lines -/

/-- What a line says. -/
inductive Line where
  /-- An empty line ends a case. -/
  | blank
  /-- A comment is skipped. -/
  | comment
  /-- The start of a section. -/
  | heading (sectionName : List Char)
  /-- An attribute of the current case. -/
  | attribute (name value : List Char)
deriving DecidableEq

/-- Reads a section line: the name stands between brackets. -/
def Line.ofSection (text : List Char) : Except SyntaxFault Line :=
  if text.getLast? = some ']' then .ok (.heading text.tail.dropLast) else .error .unclosedSection

/-- Reads an attribute line. -/
def Line.ofAttribute (text : List Char) : Except SyntaxFault Line :=
  match Text.splitFirst? " = ".toList text with
  | none => .error .noSeparator
  | some (name, value) =>
    if Text.trim value = [] then .error .emptyValue
    else .ok (.attribute (Text.trim name) (Text.trim value))

/-- Reads a line. Inside a case a section line is refused whatever it says. -/
def Line.ofText (insideCase : Bool) : List Char → Except SyntaxFault Line
  | [] => .ok .blank
  | '#' :: _ => .ok .comment
  | '[' :: rest => if insideCase then .error .sectionInsideCase else ofSection ('[' :: rest)
  | text => ofAttribute text

/-! ## Cases -/

/-- A case with the name of its section. -/
structure SectionCase where
  /-- The section, empty before the first section line. -/
  sectionName : List Char
  /-- The case, with nothing taken yet. -/
  testCase : TestCase
deriving DecidableEq

/-- The cases of a file. -/
structure Cases where
  /-- The cases up to the fault, or to the end of the file. -/
  toList : List SectionCase
  /-- The first line that breaks the format, if there is one. -/
  fault : Option SyntaxFault
deriving DecidableEq

namespace Cases

/-- The case made of some attributes; without attributes there is none. -/
def close (sectionName : List Char) (attributes : List Attribute) : List SectionCase :=
  if attributes = [] then [] else [⟨sectionName, ⟨attributes⟩⟩]

/-- Puts cases before others. -/
def after (first : List SectionCase) (cases : Cases) : Cases :=
  { cases with toList := first ++ cases.toList }

/-- Reads lines, inside a section and behind some attributes of the current case. -/
def ofLines (sectionName : List Char) (attributes : List Attribute) : List (List Char) → Cases
  | [] => ⟨close sectionName attributes, none⟩
  | text :: rest =>
    match Line.ofText (attributes ≠ []) text with
    -- The case that the line stands in is not met.
    | .error fault => ⟨[], some fault⟩
    | .ok .blank => after (close sectionName attributes) (ofLines sectionName [] rest)
    | .ok .comment => ofLines sectionName attributes rest
    -- Only outside of cases, so there are no attributes to close.
    | .ok (.heading name) => ofLines name attributes rest
    | .ok (.attribute name value) =>
      ofLines sectionName (attributes ++ [⟨name, value, false⟩]) rest

/-- The cases of a text. -/
def ofText (text : List Char) : Cases := ofLines [] [] (Text.lines text)

end Cases

end SkeinHash.AttributeFile
