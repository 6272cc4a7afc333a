import SkeinHash.Bytes

/-!
# Data lines of known answers

A data line holds bytes, each as two adjacent hexadecimal digits of either case, with any number of
spaces and tabs around them. A line may hold only so many bytes as there is room for.

Reading goes from left to right and stops at the first fault. A byte for which there is no room is a
fault only once both of its digits have been read.
-/

namespace SkeinHash.KnownAnswer

/-- What is wrong with a data line. -/
inductive DataFault where
  /-- The line ends behind the first digit of a byte. -/
  | truncated
  /-- Something else stands where a digit is due. -/
  | invalidDigit
  /-- There is no room for a byte. -/
  | tooManyBytes
deriving DecidableEq

/-- The fault in words. -/
def DataFault.message : DataFault → String
  | truncated => "truncated hex byte"
  | invalidDigit => "invalid hex digit"
  | tooManyBytes => "more bytes than declared"

/-- Whether a byte of a line is a space or a tab. -/
def isSpacing (c : UInt8) : Bool := c == 0x20 || c == 0x09

/-- The value of a digit of a data line, given as an ASCII code. -/
def dataDigit? (d : UInt8) : Option UInt8 :=
  if 0x30 ≤ d ∧ d ≤ 0x39 then some (d - 0x30)
  else if 0x61 ≤ d ∧ d ≤ 0x66 then some (d - 0x61 + 10)
  else if 0x41 ≤ d ∧ d ≤ 0x46 then some (d - 0x41 + 10)
  else none

/-- Reads a line, given as bytes, with room for `room` bytes. Returns the outcome and the bytes that
    were read, also those before a fault. -/
def readData (room : Nat) : Bytes → Except DataFault Unit × Bytes
  | [] => (.ok (), [])
  | [c] =>
    if isSpacing c then (.ok (), [])
    else if dataDigit? c = none then (.error .invalidDigit, [])
    else (.error .truncated, [])
  | c :: d :: rest =>
    if isSpacing c then readData room (d :: rest)
    else
      -- A fault in a digit comes before the lack of room.
      match dataDigit? c, dataDigit? d with
      | some hi, some lo =>
        if room = 0 then (.error .tooManyBytes, [])
        else
          let (outcome, bytes) := readData (room - 1) rest
          (outcome, ((hi <<< 4) ||| lo) :: bytes)
      | _, _ => (.error .invalidDigit, [])

/-- Reads a line behind the bytes `held` already, of which there may be `limit` in all. Returns the
    outcome and all bytes held afterwards. -/
def appendData (limit : Nat) (held line : Bytes) : Except DataFault Unit × Bytes :=
  let (outcome, bytes) := readData (limit - held.length) line
  (outcome, held ++ bytes)

end SkeinHash.KnownAnswer
