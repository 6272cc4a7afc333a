import SkeinHash.Text.Quoted

/-!
# Descriptions of values

What a value shows of itself, in two forms: on one line, and expanded with one entry a line. A
description is built from atoms by records, tuples and lists, and each of these fixes both forms.
A record may be left open: it then says by two dots that the value has more than it shows.
-/

namespace SkeinHash

/-- How a value is shown: on one line, and line by line. -/
structure Description where
  /-- The form on one line. -/
  inline : String
  /-- The lines of the expanded form. -/
  lines : List String

namespace Description

/-- The expanded form as one text. -/
def expanded (d : Description) : String := "\n".intercalate d.lines

/-- A value that is shown by a word. -/
def atom (word : String) : Description := ⟨word, [word]⟩

/-- A value that is shown as a decimal number. -/
def number (n : Nat) : Description := atom (toString n)

/-- A value that is shown as a quoted text. -/
def text (chars : List Char) : Description := atom (String.ofList (Text.quoted chars))

/-- Puts `lead` before the first line. -/
def leading (lead : String) : List String → List String
  | [] => [lead]
  | first :: rest => (lead ++ first) :: rest

/-- Puts a comma after the last line. -/
def trailing : List String → List String
  | [] => [","]
  | [last] => [last ++ ","]
  | first :: rest => first :: trailing rest

/-- The lines of an entry of a larger value: indented, after `lead`, and ended by a comma. -/
def entry (lead : String) (d : Description) : List String :=
  (trailing (leading lead d.lines)).map ("    " ++ ·)

/-- A bracketed sequence of entries; without an entry the brackets stand together. -/
def bracketed (opening closing : String) (items : List Description) : Description where
  inline := opening ++ ", ".intercalate (items.map inline) ++ closing
  lines :=
    if items.isEmpty then [opening ++ closing]
    else opening :: items.flatMap (entry "") ++ [closing]

/-- A list, in square brackets. -/
def list (items : List Description) : Description := bracketed "[" "]" items

/-- A name applied to positional values. -/
def tuple (name : String) (items : List Description) : Description :=
  bracketed (name ++ "(") ")" items

/-- A name with named fields. An open record ends with two dots. -/
def record (name : String) (fields : List (String × Description)) (isOpen : Bool) :
    Description where
  inline :=
    let dots := if isOpen then [".."] else []
    name ++ " \x7b " ++
      ", ".intercalate (fields.map (fun f => f.1 ++ ": " ++ f.2.inline) ++ dots) ++ " \x7d"
  lines :=
    (name ++ " \x7b") :: fields.flatMap (fun f => entry (f.1 ++ ": ") f.2) ++
      (if isOpen then ["    .."] else []) ++ ["\x7d"]

end Description

end SkeinHash
