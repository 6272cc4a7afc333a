import SkeinHash.KnownAnswer.DataLine
import SkeinHash.Text.Hex

/-!
# Two ways to read digits

Texts are decoded by a table of ranges and a product, data lines are read by comparisons and a
shift. Both find the digits of the row, with their places as values, and put the same two digits
together to the same byte.

- `digitValue?_eq`: the value of a digit is its place in the row
- `dataDigit?_eq_digitValue?`: data lines and texts have the same digits
- `ofNat_mul_or`, `ofNat_shiftLeft_or`: the byte of two digits
-/

namespace SkeinHash

/-! ## One digit -/

namespace Text.Hex

/-- The table of ranges holds the digits of the row, with their places as values. -/
theorem digitValue?_eq (b : UInt8) :
    digitValue? b = if IsDigit b then some (UInt8.ofNat (place b)) else none := by
  -- There are 256 bytes, and these are checked one by one.
  have all : ∀ n : Fin 256, digitValue? (.ofFin n) =
      if place (.ofFin n) < 16 then some (UInt8.ofNat (place (.ofFin n))) else none := by
    decide +kernel
  simp only [isDigit_iff]
  exact all b.toFin

/-- A byte has a value just if it is a digit, and then its place is the value. -/
theorem digitValue?_eq_some_iff {b v : UInt8} :
    digitValue? b = some v ↔ IsDigit b ∧ UInt8.ofNat (place b) = v := by
  rw [digitValue?_eq]
  split <;> simp [*]

/-- Exactly the bytes without a value are no digits. -/
theorem digitValue?_eq_none_iff {b : UInt8} : digitValue? b = none ↔ ¬ IsDigit b := by
  rw [digitValue?_eq]
  split <;> simp [*]

end Text.Hex

namespace KnownAnswer

open Text.Hex

/-- Comparing with the ends of the ranges finds what the table of ranges holds. -/
theorem dataDigit?_eq_digitValue? (b : UInt8) : dataDigit? b = digitValue? b := by
  -- Both are functions of a byte, of which there are 256.
  have all : ∀ n : Fin 256, dataDigit? (.ofFin n) = digitValue? (.ofFin n) := by decide +kernel
  exact all b.toFin

/-- So the digits of data lines have values for the same reasons. -/
theorem dataDigit?_eq_some_iff {b v : UInt8} :
    dataDigit? b = some v ↔ IsDigit b ∧ UInt8.ofNat (place b) = v := by
  rw [dataDigit?_eq_digitValue?, digitValue?_eq_some_iff]

theorem dataDigit?_eq_none_iff {b : UInt8} : dataDigit? b = none ↔ ¬ IsDigit b := by
  rw [dataDigit?_eq_digitValue?, digitValue?_eq_none_iff]

/-- A digit of a data line has its place as value. -/
theorem dataDigit?_of_isDigit {b : UInt8} (h : IsDigit b) :
    dataDigit? b = some (UInt8.ofNat (place b)) :=
  dataDigit?_eq_some_iff.mpr ⟨h, rfl⟩

end KnownAnswer

/-! ## Two digits -/

namespace Text.Hex

variable {hi lo : Nat}

/-- The product has its bits above the fourth, so putting the low digit beside it adds it. -/
theorem ofNat_mul_or (hhi : hi < 16) (hlo : lo < 16) :
    UInt8.ofNat hi * 0x10 ||| UInt8.ofNat lo = UInt8.ofNat (16 * hi + lo) := by
  apply UInt8.toNat_inj.mp
  have hor := Nat.two_pow_add_eq_or_of_lt (show lo < 2 ^ 4 from hlo) hi
  have hlow : (UInt8.ofNat lo).toNat = lo := by
    rw [UInt8.toNat_ofNat']
    omega
  have hhigh : (UInt8.ofNat hi * 0x10).toNat = 2 ^ 4 * hi := by
    rw [UInt8.toNat_mul, UInt8.toNat_ofNat']
    change hi % 256 * 16 % 256 = _
    omega
  rw [UInt8.toNat_or, hhigh, hlow, ← hor, UInt8.toNat_ofNat']
  omega

/-- Shifting by four bits is the product with sixteen. -/
theorem ofNat_shiftLeft_or (hhi : hi < 16) (hlo : lo < 16) :
    (UInt8.ofNat hi <<< 4) ||| UInt8.ofNat lo = UInt8.ofNat (16 * hi + lo) := by
  have hshift : UInt8.ofNat hi <<< 4 = UInt8.ofNat hi * 0x10 := by
    apply UInt8.toNat_inj.mp
    -- Both lose the same bits above the eighth.
    rw [UInt8.toNat_shiftLeft, UInt8.toNat_mul, Nat.shiftLeft_eq]
    rfl
  rw [hshift, ofNat_mul_or hhi hlo]

end Text.Hex

end SkeinHash
