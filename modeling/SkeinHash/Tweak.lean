import SkeinHash.Error

/-!
# Tweaks

The tweak of a block says where the block stands: in a pass of which type, how many bytes the pass
has taken in with it, whether it is the first or the last block, and whether the input ended inside
a byte. All of this is packed into two words: the low 96 bits count the bytes, and the upper half
of the second word holds the type and three flags.

- `Tweak.new`: the tweak of the first block of a pass
- `Tweak.addPosition`, `clearFirst`, `setFinal`, `setBitPad`: what happens to it on the way
- `Tweak.position`, `blockType?`, `isFirst`, `isFinal`, `isBitPad`: its fields
-/

namespace SkeinHash

/-! ## Types of passes -/

/-- The type of a pass. Every kind of input is processed in a pass of its own type. -/
inductive BlockType where
  | key
  | config
  | personalization
  | publicKey
  | keyIdentifier
  | nonce
  | message
  | output
deriving DecidableEq

namespace BlockType

/-- All types, in the order of their codes. -/
def all : List BlockType :=
  [key, config, personalization, publicKey, keyIdentifier, nonce, message, output]

/-- The six-bit code of a type. -/
def code : BlockType → UInt64
  | key => 0
  | config => 4
  | personalization => 8
  | publicKey => 12
  | keyIdentifier => 16
  | nonce => 20
  | message => 48
  | output => 63

/-- The type with a given code. -/
def ofCode? (code : UInt64) : Option BlockType := all.find? fun t => t.code == code

/-- The name of a type. -/
def name : BlockType → String
  | key => "Key"
  | config => "Config"
  | personalization => "Personalization"
  | publicKey => "PublicKey"
  | keyIdentifier => "KeyIdentifier"
  | nonce => "Nonce"
  | message => "Message"
  | output => "Output"

theorem code_lt (t : BlockType) : t.code < 64 := by
  cases t <;> decide

end BlockType

/-! ## The packed words -/

/-- The two tweak words of a block. -/
structure Tweak where
  /-- The low 64 bits of the position. -/
  low : UInt64
  /-- The high 32 bits of the position, the bit-pad flag, the type, and the first and final flag. -/
  high : UInt64
deriving DecidableEq

namespace Tweak

/-- Where the type stands in the high word. -/
def typeShift : UInt64 := 56

/-- The bits of the type in the high word. -/
def typeMask : UInt64 := 0x3f <<< typeShift

/-- The flag of a pass whose input ended inside a byte. -/
def bitPadFlag : UInt64 := (1 : UInt64) <<< 55

/-- The flag of the first block of a pass. -/
def firstFlag : UInt64 := (1 : UInt64) <<< 62

/-- The flag of the last block of a pass. -/
def finalFlag : UInt64 := (1 : UInt64) <<< 63

/-- The bits of the high word that extend the position. -/
def positionMask : UInt64 := 0xffffffff

/-- The tweak of the first block of a pass, before any byte is counted. -/
def new (t : BlockType) : Tweak := ⟨0, (t.code <<< typeShift) ||| firstFlag⟩

/-- The number at which the position wraps around, 2 to the 96. -/
def positionLimit : Nat := 1 <<< 96

/-! ## Fields -/

/-- The number of bytes taken in by the pass, up to the end of the block. -/
def position (t : Tweak) : Nat := (t.high &&& positionMask).toNat * UInt64.size + t.low.toNat

/-- The type of the pass, if the type bits are the code of one. -/
def blockType? (t : Tweak) : Option BlockType :=
  BlockType.ofCode? ((t.high &&& typeMask) >>> typeShift)

/-- Whether the block is the first of the pass. -/
def isFirst (t : Tweak) : Bool := t.high &&& firstFlag != 0

/-- Whether the block is the last of the pass. -/
def isFinal (t : Tweak) : Bool := t.high &&& finalFlag != 0

/-- Whether the input of the pass ended inside a byte. -/
def isBitPad (t : Tweak) : Bool := t.high &&& bitPadFlag != 0

/-! ## Steps -/

/-- Moves the position forward by `len` bytes. The position wraps around at its limit. -/
def addPosition (t : Tweak) (len : Nat) : Tweak :=
  let position := (t.position + len) % positionLimit
  -- What is above the low word has at most 32 bits and stays below the flags.
  ⟨UInt64.ofNat (position % UInt64.size),
    (t.high &&& ~~~positionMask) ||| UInt64.ofNat (position / UInt64.size)⟩

/-- The tweak of a block that is not the first. -/
def clearFirst (t : Tweak) : Tweak := { t with high := t.high &&& ~~~firstFlag }

/-- The tweak of a block that is the last. -/
def setFinal (t : Tweak) : Tweak := { t with high := t.high ||| finalFlag }

/-- The tweak of a pass whose input ended inside a byte. -/
def setBitPad (t : Tweak) : Tweak := { t with high := t.high ||| bitPadFlag }

/-- Shows the two words. -/
def describe (t : Tweak) : Description :=
  .tuple "Tweak" [.list [.number t.low.toNat, .number t.high.toNat]]

end Tweak

end SkeinHash
