/-!
# Decimal numbers

A number is written with ASCII digits, at least one, and may have one plus sign in front. It must
fit into 64 bits. Any number of leading zeros is allowed, and nothing else is.
-/

namespace SkeinHash.Text.Decimal

/-- Reads digits alone. -/
def digits? (text : List Char) : Option Nat :=
  if text ≠ [] ∧ text.all Char.isDigit then
    let n := Nat.ofDigitChars 10 text 0
    if n < UInt64.size then some n else none
  else none

/-- Reads a number with an optional plus sign. -/
def parse? : List Char → Option Nat
  | '+' :: text => digits? text
  | text => digits? text

/-- The digits of a number, without leading zeros. -/
def digits (n : Nat) : List Char := Nat.toDigits 10 n

theorem digits_ne_nil (n : Nat) : digits n ≠ [] := Nat.toDigits_ne_nil

/-- A number is written with digits alone. -/
theorem isDigit_of_mem_digits {n : Nat} {c : Char} (h : c ∈ digits n) : c.isDigit = true :=
  Nat.isDigit_of_mem_toDigits (by omega) (by omega) h

/-- The digits of a number that fits are read without a sign. -/
theorem digits?_digits {n : Nat} (h : n < UInt64.size) : digits? (digits n) = some n := by
  have nonempty : digits n ≠ [] := digits_ne_nil n
  have all : (digits n).all Char.isDigit = true :=
    List.all_eq_true.2 fun c hc => isDigit_of_mem_digits hc
  have value : Nat.ofDigitChars 10 (digits n) 0 = n :=
    Nat.ofDigitChars_toDigits (by omega) (by omega)
  rw [digits?, if_pos ⟨nonempty, all⟩]
  simp only [value, if_pos h]

/-- The digits of a number that fits are read as the number. -/
theorem parse?_digits {n : Nat} (h : n < UInt64.size) : parse? (digits n) = some n := by
  unfold parse?
  split
  · rename_i text heq
    -- A plus sign would have to be a digit of the number.
    have : ('+' : Char).isDigit = true :=
      isDigit_of_mem_digits (show '+' ∈ digits n by simp [heq])
    simp at this
  · exact digits?_digits h

end SkeinHash.Text.Decimal
