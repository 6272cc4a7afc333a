import SkeinHash.Tweak

/-!
# Tweak fields

A tweak as a record of its fields, each of which a step changes without regard to the others, and
the packing of the record into two words by sums of shifted numbers. The packed words of `Tweak` are
to behave as this record does.
-/

namespace SkeinHash.Tweak

/-- What a tweak says about a block. -/
structure Fields where
  /-- The type of the pass. -/
  blockType : BlockType
  /-- The number of bytes taken in, below 2 to the 96. -/
  position : Nat
  /-- The block is the first of the pass. -/
  first : Bool
  /-- The block is the last of the pass. -/
  final : Bool
  /-- The input ended inside a byte. -/
  bitPad : Bool
deriving DecidableEq

/-- What happens to a tweak on the way through a pass. -/
inductive Step where
  | addPosition (len : Nat)
  | clearFirst
  | setFinal
  | setBitPad
deriving DecidableEq

/-- The number of bytes that a step counts. -/
def Step.counted : Step → Nat
  | .addPosition len => len
  | .clearFirst | .setFinal | .setBitPad => 0

/-- A step on the packed words. -/
def apply (t : Tweak) : Step → Tweak
  | .addPosition len => t.addPosition len
  | .clearFirst => t.clearFirst
  | .setFinal => t.setFinal
  | .setBitPad => t.setBitPad

namespace Fields

/-- The fields of the first block of a pass. -/
def new (t : BlockType) : Fields := ⟨t, 0, true, false, false⟩

/-- A step on the fields. -/
def apply (f : Fields) : Step → Fields
  | .addPosition len => { f with position := (f.position + len) % positionLimit }
  | .clearFirst => { f with first := false }
  | .setFinal => { f with final := true }
  | .setBitPad => { f with bitPad := true }

/-- The high word: the upper part of the position, then the bit-pad flag at bit 55, the type from
    bit 56, the first flag at bit 62 and the final flag at bit 63. -/
def high (f : Fields) : Nat :=
  f.position / UInt64.size + f.bitPad.toNat <<< 55 + f.blockType.code.toNat <<< 56 +
    f.first.toNat <<< 62 + f.final.toNat <<< 63

/-- The two words that hold the fields. -/
def pack (f : Fields) : Tweak :=
  ⟨UInt64.ofNat (f.position % UInt64.size), UInt64.ofNat f.high⟩

end Fields

end SkeinHash.Tweak
