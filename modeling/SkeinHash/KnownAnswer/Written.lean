import SkeinHash.KnownAnswer.DataLine
import SkeinHash.KnownAnswer.Reader

/-!
# Written known answers

The forms in which a list of known answers can be written. The order of the parts of a vector, the
cut of its data into lines, blank lines and everything between the vectors are free; the header is
written in one way.

- `KnownAnswer.WellFormed`: the vectors that can be written
- `headerText`: the header of a vector
- `VectorLines`: the lines of a vector
- `FileLines`: the lines of a file
-/

namespace SkeinHash.KnownAnswer

/-! ## Vectors that can be written -/

/-- The parts have the lengths that the header declares, and all lengths fit into a word. -/
structure WellFormed (v : KnownAnswer) : Prop where
  outputBits_lt : v.outputBits < UInt64.size
  messageBits_lt : v.messageBits < UInt64.size
  message_length : v.message.length = byteCount v.messageBits
  result_length : v.result.length = byteCount v.outputBits
  key_length : ∀ key, v.key = some key → key.length < UInt64.size

/-! ## Headers and data -/

/-- The header of a vector. -/
def headerText (v : KnownAnswer) : List Char :=
  Header.lead ++ Text.Decimal.digits v.size.bits ++ ": ".toList ++
    Text.Decimal.digits v.outputBits ++ "-bit hash, msgLen = ".toList ++
    Text.Decimal.digits v.messageBits ++ " bits, data = 'random'".toList ++
    (if v.isTree then ", Tree".toList else []) ++
    (if v.key.isSome then ", MAC".toList else [])

/-- A line of white space, or none at all. -/
def BlankLine (text : List Char) : Prop := Text.trim text = []

/-- Lines below a heading that hold some bytes. Data may be cut into lines anywhere between two
    bytes; a remark may say that there is none. -/
inductive DataLines : List (List Char) → Bytes → Prop where
  | nil : DataLines [] []
  | blank {text : List Char} {rest : List (List Char)} {data : Bytes} :
      BlankLine text → DataLines rest data → DataLines (text :: rest) data
  | noData {text : List Char} {rest : List (List Char)} :
      Text.trim text = "(none)".toList → DataLines rest [] → DataLines (text :: rest) []
  | data {text : List Char} {rest : List (List Char)} {line data : Bytes} :
      DataLine (text.flatMap String.utf8EncodeChar) line → DataLines rest data →
      DataLines (text :: rest) (line ++ data)

/-! ## Vectors -/

/-- The lines of one part of a vector: its heading and its data. -/
inductive PartLines (v : KnownAnswer) : Part → List (List Char) → Prop where
  | message {rest : List (List Char)} :
      DataLines rest v.message → PartLines v .message ("Message data:".toList :: rest)
  | result {rest : List (List Char)} :
      DataLines rest v.result → PartLines v .result ("Result:".toList :: rest)
  | key {key : Bytes} {rest : List (List Char)} : v.key = some key → DataLines rest key →
      PartLines v .key
        (("MAC key = ".toList ++ Text.Decimal.digits key.length ++ " bytes:".toList) :: rest)

/-- The lines of some parts, one after the other. -/
inductive PartsLines (v : KnownAnswer) : List Part → List (List Char) → Prop where
  | nil : PartsLines v [] []
  | cons {part : Part} {parts : List Part} {first rest : List (List Char)} :
      PartLines v part first → PartsLines v parts rest →
      PartsLines v (part :: parts) (first ++ rest)

/-- The parts that a vector has. -/
def parts (v : KnownAnswer) : List Part :=
  [.message, .result] ++ if v.key.isSome then [.key] else []

/-- A line of at least four dashes. -/
def RuleLine (text : List Char) : Prop := ∃ n, text = List.replicate (4 + n) '-'

/-- The lines of a vector: the header, the parts in any order, and the rule. -/
def VectorLines (v : KnownAnswer) (text : List (List Char)) : Prop :=
  ∃ blanks order body rule, (∀ b ∈ blanks, BlankLine b) ∧ order.Perm v.parts ∧
    PartsLines v order body ∧ RuleLine rule ∧
    text = headerText v :: blanks ++ body ++ [rule]

/-! ## Files -/

/-- The lines of a file, from a line number on, hold some vectors. What stands outside of them is
    anything but a header. -/
inductive FileLines : Nat → List (List Char) → List KnownAnswer → Prop where
  | nil {number : Nat} : FileLines number [] []
  | other {number : Nat} {text : List Char} {rest : List (List Char)}
      {vectors : List KnownAnswer} :
      Header.isHeader text = false → FileLines (number + 1) rest vectors →
      FileLines number (text :: rest) vectors
  | vector {number : Nat} {v : KnownAnswer} {first rest : List (List Char)}
      {vectors : List KnownAnswer} :
      VectorLines v first → v.line = number → FileLines (number + first.length) rest vectors →
      FileLines number (first ++ rest) (v :: vectors)

end SkeinHash.KnownAnswer
