import SkeinHash.Bytes

/-!
# Bit strings

A message is a bit string. Bytes hold it with the first bit in the most significant place, and when
the number of bits is not a multiple of 8 the last byte has low-order bits that belong to nothing.

- `Bits.ofBytes`: all bits of a byte string
- `Bits.pack`: bits in bytes, with zeros in the unused places
-/

namespace SkeinHash

/-- A bit string. -/
abbrev Bits := List Bool

namespace Bits

/-- The bits of a byte, the most significant one first. -/
def ofByte (b : UInt8) : Bits := (List.range 8).map fun i => b.toNat.testBit (7 - i)

/-- The bits of a byte string. -/
def ofBytes (data : Bytes) : Bits := data.flatMap ofByte

/-- The first `bitCount` bits of a byte string. -/
def leading (data : Bytes) (bitCount : Nat) : Bits := (ofBytes data).take bitCount

/-- The byte with the given first bits; where no bit is given, it has a zero. -/
def packByte (bits : Bits) : UInt8 :=
  UInt8.ofNat ((List.range 8).foldl (fun n i => 2 * n + (bits[i]?.getD false).toNat) 0)

/-- The bytes that hold a bit string. -/
def pack (bits : Bits) : Bytes :=
  (List.range (byteCount bits.length)).map fun i => packByte (bits.drop (8 * i))

@[simp] theorem length_ofByte (b : UInt8) : (ofByte b).length = 8 := by simp [ofByte]

@[simp] theorem length_ofBytes (data : Bytes) : (ofBytes data).length = 8 * data.length := by
  induction data with
  | nil => rfl
  | cons b data ih =>
    simp only [ofBytes, List.flatMap_cons, List.length_append, length_ofByte,
      List.length_cons] at ih ⊢
    omega

@[simp] theorem length_pack (bits : Bits) : (pack bits).length = byteCount bits.length := by
  simp [pack]

/-- A byte can be put together from its bits. -/
theorem packByte_ofByte (b : UInt8) : packByte (ofByte b) = b := by
  -- There are few enough bytes to go through.
  have all : ∀ n : Fin 256, packByte (ofByte (UInt8.ofFin n)) = UInt8.ofFin n := by
    decide +kernel
  exact all b.toFin

theorem ofBytes_append (a b : Bytes) : ofBytes (a ++ b) = ofBytes a ++ ofBytes b := by
  simp [ofBytes]

end Bits

end SkeinHash
