import SkeinHash.Error
import SkeinHash.LittleEndian
import SkeinHash.Threefish.Mix
import SkeinHash.Threefish.Rounds

/-!
# The Threefish tweakable block cipher

A cipher holds its key and tweak together with the two words that the key schedule derives from
them: the parity of the key and the exclusive or of the tweak words. Blocks go through as words;
`encryptBytes` and `decryptBytes` work on a byte buffer, which they leave alone when its length
is not that of a block.

Encryption runs through the rounds in place: a round mixes each of its word pairs where the words
stand. Decryption undoes the steps in the opposite order.
-/

namespace SkeinHash

/-- Threefish with a key and a tweak. -/
structure Threefish (s : StateSize) where
  /-- The key words. -/
  key : Block s
  /-- The extra key word: the exclusive or of `keyScheduleParity` and all key words. -/
  parity : UInt64
  /-- The two tweak words and their exclusive or. -/
  tweak : Vector UInt64 3

namespace Threefish

variable {s : StateSize}

/-! ## Keys and tweaks -/

/-- The constant in the extra key word, which keeps it from being zero for the zero key. -/
def keyScheduleParity : UInt64 := 0x1BD11BDAA9FC1A22

/-- Replaces the key and keeps the tweak. -/
def setKey (c : Threefish s) (key : Block s) : Threefish s :=
  { c with key, parity := key.foldl (· ^^^ ·) keyScheduleParity }

/-- Replaces the tweak and keeps the key. -/
def setTweak (c : Threefish s) (t₀ t₁ : UInt64) : Threefish s :=
  { c with tweak := #v[t₀, t₁, t₀ ^^^ t₁] }

/-- The cipher with the given key and tweak words. -/
def ofWords (key : Block s) (t₀ t₁ : UInt64) : Threefish s :=
  (Threefish.mk (Block.zero s) 0 #v[0, 0, 0] |>.setKey key).setTweak t₀ t₁

/-- The cipher with a key of one block and a tweak of 16 bytes. -/
def ofBytes (key tweak : Bytes) : Except ParameterError (Threefish s) :=
  match LittleEndian.ofBytes? s.words key, LittleEndian.ofBytes? 2 tweak with
  | some k, some t => .ok (ofWords k t[0] t[1])
  | _, _ => .error .blockLen

/-! ## Subkeys -/

/-- Word `i` of subkey `d`. The key words and the parity rotate by one place from subkey to
    subkey; two tweak words and the number of the subkey go into the last three words. -/
def subkeyWord (c : Threefish s) (d i : Nat) : UInt64 :=
  -- Behind the last key word the parity has its turn.
  let k := c.key[(d + i) % (s.words + 1)]?.getD c.parity
  if i + 3 = s.words then k + c.tweak[d % 3]
  else if i + 2 = s.words then k + c.tweak[(d + 1) % 3]
  else if i + 1 = s.words then k + UInt64.ofNat d
  else k

/-- Adds subkey `d` word by word. -/
def addSubkey (c : Threefish s) (d : Nat) (x : Block s) : Block s :=
  x.mapIdx fun i w => w + c.subkeyWord d i

/-- Subtracts subkey `d` word by word. -/
def subSubkey (c : Threefish s) (d : Nat) (x : Block s) : Block s :=
  x.mapIdx fun i w => w - c.subkeyWord d i

/-! ## Rounds -/

/-- The pairs of round `d`, each with its rotation amount. -/
def steps (s : StateSize) (d : Nat) : Vector ((Fin s.words × Fin s.words) × Nat) (s.words / 2) :=
  ((rounds s).pairs[d % 4]).zip
    ((rounds s).rotations[d % 8])

/-- Mixes the words at two positions. -/
def mixAt (x : Block s) (step : (Fin s.words × Fin s.words) × Nat) : Block s :=
  let ((i, j), r) := step
  let (a, b) := mix x[i] x[j] r
  (x.set i a).set j b

/-- Undoes `mixAt`. -/
def unmixAt (x : Block s) (step : (Fin s.words × Fin s.words) × Nat) : Block s :=
  let ((i, j), r) := step
  let (a, b) := unmix x[i] x[j] r
  (x.set i a).set j b

/-- Round `d` without its subkey. -/
def mixRound (d : Nat) (x : Block s) : Block s := (steps s d).foldl mixAt x

/-- Undoes `mixRound`. The pairs of a round share no word, so they are undone in the same order. -/
def unmixRound (d : Nat) (x : Block s) : Block s := (steps s d).foldl unmixAt x

/-- Round `d`. Every fourth round ends with a subkey. -/
def round (c : Threefish s) (x : Block s) (d : Nat) : Block s :=
  let x := mixRound d x
  if d % 4 = 3 then c.addSubkey (d / 4 + 1) x else x

/-- Undoes `round`. -/
def unround (c : Threefish s) (d : Nat) (x : Block s) : Block s :=
  unmixRound d (if d % 4 = 3 then c.subSubkey (d / 4 + 1) x else x)

/-! ## Blocks -/

/-- Encrypts one block. -/
def encrypt (c : Threefish s) (block : Block s) : Block s :=
  (List.range (rounds s).count).foldl c.round (c.addSubkey 0 block)

/-- Decrypts one block. -/
def decrypt (c : Threefish s) (block : Block s) : Block s :=
  c.subSubkey 0 ((List.range (rounds s).count).foldr c.unround block)

/-- Applies a function on blocks to a buffer, which has to be exactly one block long. Returns the
    outcome and the buffer afterwards. -/
def onBytes (f : Block s → Block s) (buffer : Bytes) : Except ParameterError Unit × Bytes :=
  match LittleEndian.ofBytes? s.words buffer with
  | none => (.error .blockLen, buffer)
  | some block => (.ok (), LittleEndian.writeInto (f block).toList buffer)

/-- Encrypts a buffer of one block in place. -/
def encryptBytes (c : Threefish s) : Bytes → Except ParameterError Unit × Bytes := onBytes c.encrypt

/-- Decrypts a buffer of one block in place. -/
def decryptBytes (c : Threefish s) : Bytes → Except ParameterError Unit × Bytes := onBytes c.decrypt

/-- Shows the block length only; the key stays hidden. -/
def describe (_ : Threefish s) : Description :=
  .record "Threefish" [("block_len", .number s.blockLen)] true

end Threefish

end SkeinHash
