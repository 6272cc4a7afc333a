import SkeinHash.Bytes

/-!
# Hexadecimal digits

The digits stand in a row in the order of their values, so a digit is a byte that is found in the
row, and its value is its place there. Nothing here says how a program tells digits apart.
-/

namespace SkeinHash.Text.Hex

/-- The digits in the order of their values. -/
def row : List Char :=
  ['0', '1', '2', '3', '4', '5', '6', '7', '8', '9', 'a', 'b', 'c', 'd', 'e', 'f']

/-- The character of a byte, a capital letter as the small one. -/
def small (b : UInt8) : Char := (Char.ofNat b.toNat).toLower

/-- Whether a byte is a digit: it stands in the row, or is the capital of a letter in it. -/
def IsDigit (b : UInt8) : Prop := small b ∈ row

instance : DecidablePred IsDigit := fun b => inferInstanceAs (Decidable (small b ∈ row))

/-- The place of a digit in the row. The place of anything else is 16, behind the end. -/
def place (b : UInt8) : Nat := row.idxOf (small b)

/-- A byte is a digit just if its place is not behind the end of the row. -/
theorem isDigit_iff (b : UInt8) : IsDigit b ↔ place b < 16 := List.idxOf_lt_length_iff.symm

end SkeinHash.Text.Hex
