import SkeinHash.KnownAnswer.HexData
import SkeinHash.Text.HexDigit

/-!
# The grammar of data lines

Which byte sequences of a line stand for which data, said without a reader: pairs of adjacent
digits, with spaces and tabs before, between and after them. A line that is not of this form, or
that stands for more data than there is room for, begins with a part that is, and behind this part
comes its first fault.
-/

namespace SkeinHash.KnownAnswer

open Text.Hex

/-- Spaces and tabs only. -/
def Spacing (text : Bytes) : Prop := ∀ c ∈ text, isSpacing c = true

/-- The first line stands for the second sequence of bytes. -/
inductive DataLine : Bytes → Bytes → Prop where
  /-- Spacing stands for no data. -/
  | spacing {text : Bytes} : Spacing text → DataLine text []
  /-- Two digits, after spacing, stand for the byte whose halves are their places in the row. -/
  | byte {lead rest data : Bytes} {c d : UInt8} :
      Spacing lead → IsDigit c → IsDigit d → DataLine rest data →
      DataLine (lead ++ c :: d :: rest) (UInt8.ofNat (16 * place c + place d) :: data)

/-- With room for `room` more bytes, nothing can be read of the line because of the fault. -/
inductive StartsWithFault (room : Nat) : Bytes → DataFault → Prop where
  /-- The line ends inside a pair. -/
  | truncated {c : UInt8} : IsDigit c → StartsWithFault room [c] .truncated
  /-- The first byte is neither a digit nor spacing. -/
  | firstDigit {c : UInt8} {rest : Bytes} : isSpacing c = false → ¬ IsDigit c →
      StartsWithFault room (c :: rest) .invalidDigit
  /-- Behind the first digit of a pair stands something else, be it spacing. -/
  | secondDigit {c d : UInt8} {rest : Bytes} : IsDigit c → ¬ IsDigit d →
      StartsWithFault room (c :: d :: rest) .invalidDigit
  /-- There is a pair, but no room for its byte. -/
  | noRoom {c d : UInt8} {rest : Bytes} : room = 0 → IsDigit c → IsDigit d →
      StartsWithFault room (c :: d :: rest) .tooManyBytes

/-- The line stands for `data` up to its first fault. -/
def FaultyLine (room : Nat) (line data : Bytes) (fault : DataFault) : Prop :=
  ∃ before rest, line = before ++ rest ∧ DataLine before data ∧ data.length ≤ room ∧
    StartsWithFault (room - data.length) rest fault

end SkeinHash.KnownAnswer
