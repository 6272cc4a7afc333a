/-!
# State sizes

Skein comes in three sizes. The size fixes the width of the chaining value, of the cipher key and
of a block, which are all the same: 4, 8 or 16 words of 64 bits.
-/

namespace SkeinHash

/-- The size of the internal state, which is also the size of a block. -/
inductive StateSize where
  /-- 256 bits, for small memories. -/
  | skein256
  /-- 512 bits, the primary size. -/
  | skein512
  /-- 1024 bits, for a wide security margin. -/
  | skein1024
deriving DecidableEq

namespace StateSize

/-- The number of 64-bit words of a block. -/
def words : StateSize → Nat
  | skein256 => 4
  | skein512 => 8
  | skein1024 => 16

/-- The number of bytes of a block. -/
def blockLen (s : StateSize) : Nat := 8 * s.words

/-- The number of bits of a block. -/
def bits (s : StateSize) : Nat := 8 * s.blockLen

/-- The size with a given number of words. -/
def ofWords? : Nat → Option StateSize
  | 4 => some skein256
  | 8 => some skein512
  | 16 => some skein1024
  | _ => none

/-- The size with a given number of bits. -/
def ofBits? : Nat → Option StateSize
  | 256 => some skein256
  | 512 => some skein512
  | 1024 => some skein1024
  | _ => none

/-- The name of the size, as descriptions show it. -/
def name : StateSize → String
  | skein256 => "Skein256"
  | skein512 => "Skein512"
  | skein1024 => "Skein1024"

theorem ofBits?_bits (s : StateSize) : ofBits? s.bits = some s := by
  cases s <;> rfl

theorem blockLen_pos (s : StateSize) : 0 < s.blockLen := by
  cases s <;> decide

/-- The length of the longest block, in bytes. -/
def maxBlockLen : Nat := skein1024.blockLen

theorem blockLen_le_maxBlockLen (s : StateSize) : s.blockLen ≤ maxBlockLen := by
  cases s <;> decide

end StateSize

/-- A block, as words. Chaining values and cipher keys have the same shape. -/
abbrev Block (s : StateSize) := Vector UInt64 s.words

/-- The block of zeros, from which every chain of passes starts. -/
def Block.zero (s : StateSize) : Block s := Vector.replicate s.words 0

/-- Word-wise exclusive or. -/
def Block.xor {s : StateSize} (x y : Block s) : Block s :=
  Vector.zipWith (· ^^^ ·) x y

end SkeinHash
