/-!
# The MIX function

The one nonlinear step of Threefish, on two words, and its inverse. Rotation amounts count modulo
the width of a word.
-/

namespace SkeinHash.Threefish

/-- Rotates a word to the left. -/
def rotateLeft (x : UInt64) (r : Nat) : UInt64 :=
  (x <<< UInt64.ofNat (r % 64)) ||| (x >>> UInt64.ofNat (64 - r % 64))

/-- Rotates a word to the right. -/
def rotateRight (x : UInt64) (r : Nat) : UInt64 :=
  (x >>> UInt64.ofNat (r % 64)) ||| (x <<< UInt64.ofNat (64 - r % 64))

/-- One MIX: the first word takes the sum, the second is rotated and takes the difference of bits
    from the sum. -/
def mix (a b : UInt64) (r : Nat) : UInt64 × UInt64 :=
  let sum := a + b
  (sum, rotateLeft b r ^^^ sum)

/-- Undoes `mix`. -/
def unmix (a b : UInt64) (r : Nat) : UInt64 × UInt64 :=
  let second := rotateRight (b ^^^ a) r
  (a - second, second)

end SkeinHash.Threefish
