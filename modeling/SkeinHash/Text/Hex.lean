import SkeinHash.Bytes

/-!
# Hexadecimal text

Two digits a byte, the high one first. Digits are read in either case and written in lower case.

A text is decoded as the bytes of its UTF-8 form: its length is counted in bytes, and the byte that
is not a digit is shown as the character with that code point.
-/

namespace SkeinHash.Text.Hex

/-! ## Digits -/

/-- Digits that follow each other in ASCII. -/
structure DigitRange where
  /-- The code of the first digit. -/
  first : UInt8
  /-- The code of the last digit. -/
  last : UInt8
  /-- The value of the first digit. -/
  offset : UInt8

/-- The decimal digits, the small letters and the capital letters. -/
def digitRanges : List DigitRange := [⟨0x30, 0x39, 0⟩, ⟨0x61, 0x66, 10⟩, ⟨0x41, 0x46, 10⟩]

/-- The value of a digit, given as an ASCII code: its distance from the start of the first range
    that holds it, counted from the value there. -/
def digitValue? (d : UInt8) : Option UInt8 :=
  (digitRanges.find? fun r => r.first ≤ d ∧ d ≤ r.last).map fun r => d - r.first + r.offset

/-- The digit for a value below 16. -/
def digit (v : UInt8) : Char :=
  if v < 10 then Char.ofNat (0x30 + v.toNat) else Char.ofNat (0x57 + v.toNat)

/-- The two digits of a byte. -/
def byteDigits (b : UInt8) : List Char := [digit (b >>> 4), digit (b &&& 0xf)]

/-- The digits of a byte string. -/
def encode (bytes : Bytes) : List Char := bytes.flatMap byteDigits

/-! ## Decoding -/

/-- Why a text is not hexadecimal. -/
inductive DecodeError where
  /-- It has an odd number of bytes. -/
  | oddLength
  /-- It holds a byte that is not a digit; this is the first. -/
  | badDigit (byte : UInt8)
deriving DecidableEq

/-- The error as a text. -/
def DecodeError.message : DecodeError → List Char
  | oddLength => "Hex string does not have an even number of digits".toList
  | badDigit byte => "Invalid hex digit '".toList ++ [Char.ofNat byte.toNat, '\'']

/-- Decodes pairs of digits. -/
def decodePairs : Bytes → Except DecodeError Bytes
  | hi :: lo :: rest =>
    match digitValue? hi, digitValue? lo with
    -- Of two faults the one in front is reported.
    | none, _ => .error (.badDigit hi)
    | some _, none => .error (.badDigit lo)
    | some h, some l => (decodePairs rest).map fun bytes => (h * 0x10 ||| l) :: bytes
  -- The number of bytes has been looked at before, so this is never reached.
  | [_] => .error .oddLength
  | [] => .ok []

/-- Decodes the bytes of a text. That their number is odd is reported before any other fault. -/
def decodeBytes (text : Bytes) : Except DecodeError Bytes :=
  if text.length % 2 = 0 then decodePairs text else .error .oddLength

/-- Decodes a text. -/
def decode (text : List Char) : Except DecodeError Bytes :=
  decodeBytes (text.flatMap String.utf8EncodeChar)

end SkeinHash.Text.Hex
