/-!
# Bytes and bit counts

Inputs, keys and outputs are lists of bytes. Their lengths are often given in bits, the bits of
a byte being numbered from the most significant one, so a count that is not a multiple of 8 ends
inside a byte.

- `byteCount`: how many bytes a number of bits occupies
- `Bytes.maskLast`: clears what a final partial byte does not use
-/

namespace SkeinHash

/-- A byte string. -/
abbrev Bytes := List UInt8

/-- The number of bytes that hold `bits` bits: an eighth, rounded up. -/
def byteCount (bits : Nat) : Nat :=
  bits / 8 + if bits % 8 = 0 then 0 else 1

/-- Rounding up is adding seven before dividing. -/
theorem byteCount_eq (bits : Nat) : byteCount bits = (bits + 7) / 8 := by
  unfold byteCount
  split <;> omega

/-- A byte string holds `bits` bits exactly when it has `byteCount bits` bytes. -/
theorem byteCount_le_iff (bits len : Nat) : byteCount bits ≤ len ↔ bits ≤ 8 * len := by
  rw [byteCount_eq]
  omega

/-- Clears the low-order bits that the last byte of a `bits`-bit string does not use. -/
def Bytes.maskLast (bits : Nat) (out : Bytes) : Bytes :=
  let used := bits % 8
  if used = 0 then out
  else out.modify (out.length - 1) fun last => last &&& (0xff <<< UInt8.ofNat (8 - used))

@[simp] theorem Bytes.length_maskLast (bits : Nat) (out : Bytes) :
    (Bytes.maskLast bits out).length = out.length := by
  simp only [Bytes.maskLast]
  split <;> simp

end SkeinHash
