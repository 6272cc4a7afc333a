import SkeinHash.KnownAnswer.Header
import SkeinHash.Bytes

/-!
# Lines of a file of known answers

A line is told from the others by its text alone: a header by its beginning, the rest by what they
hold between white space.
-/

namespace SkeinHash.KnownAnswer

/-- What a line says. -/
inductive Line where
  /-- A header line; `none` if it is not well formed. -/
  | header (declared : Option Header)
  /-- Nothing but white space. -/
  | blank
  /-- At least four dashes, and anything behind them: the end of a vector. -/
  | rule
  /-- The data lines of the message follow. -/
  | messageHeading
  /-- The data lines of the output follow. -/
  | resultHeading
  /-- The data lines of the key follow, which has so many bytes; `none` if that is not readable. -/
  | keyHeading (length : Option Nat)
  /-- A remark that there is no data. -/
  | noData
  /-- Data, as the bytes of the trimmed line. -/
  | data (text : Bytes)
deriving DecidableEq

/-- The key length in what follows `MAC key =` on a line. -/
def Line.keyLength? (text : List Char) : Option Nat := do
  Text.Decimal.parse? (Text.trim (← Text.beforeEnd? "bytes:".toList text))

/-- Tells what a trimmed line says that is no header. -/
def Line.ofTrimmed (text : List Char) : Line :=
  if text = [] then .blank
  else if "----".toList.isPrefixOf text then .rule
  else if text = "Message data:".toList then .messageHeading
  else if text = "Result:".toList then .resultHeading
  else
    match Text.afterStart? "MAC key =".toList text with
    | some rest => .keyHeading (keyLength? rest)
    | none =>
      if text = "(none)".toList then .noData else .data (text.flatMap String.utf8EncodeChar)

/-- Tells what a line says. -/
def Line.ofText (text : List Char) : Line :=
  if Header.isHeader text then .header (Header.parse? text) else ofTrimmed (Text.trim text)

/-- Headers are told by the line with its white space, not here. -/
theorem Line.ofTrimmed_ne_header (text : List Char) (declared : Option Header) :
    ofTrimmed text ≠ .header declared := by
  fun_cases ofTrimmed text <;> simp

/-- Lines are told to be headers by their beginning alone. -/
theorem Line.ofText_eq_header_iff {text : List Char} {declared : Option Header} :
    ofText text = .header declared ↔
      Header.isHeader text = true ∧ Header.parse? text = declared := by
  unfold ofText
  split <;> simp_all [ofTrimmed_ne_header]

/-- A line that is no header says something else. -/
theorem Line.isHeader_eq_false_iff {text : List Char} :
    Header.isHeader text = false ↔ ∀ declared, ofText text ≠ .header declared := by
  simp [ofText_eq_header_iff]

end SkeinHash.KnownAnswer
