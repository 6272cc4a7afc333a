import SkeinHash.Bits
import SkeinHash.Tweak.Fields
import SkeinHash.Ubi

/-!
# Passes block by block

What a pass does, as a function of its whole input: the input is cut into blocks, the last one is
filled up with zeros, and the blocks are compressed in order. Pieces, buffers and flags that change
on the way do not occur.

- `Blockwise.pass`: the chaining value after a pass
- `Blockwise.compressedBlocks`: how many blocks must have been compressed when so much of the input
  has been read, before it is known whether more will follow
-/

namespace SkeinHash.Ubi.Blockwise

variable {s : StateSize} {σ : Type}

/-! ## Blocks and their tweaks -/

/-- The number of blocks of a pass over `len` bytes. Even an empty input has one. -/
def blockCount (s : StateSize) (len : Nat) : Nat :=
  max 1 ((len + s.blockLen - 1) / s.blockLen)

/-- Block `i` of an input, with zeros behind the end. -/
def block (s : StateSize) (data : Bytes) (i : Nat) : Block s :=
  LittleEndian.words
    (Vector.ofFn fun j : Fin (8 * s.words) => data[i * s.blockLen + j.val]?.getD 0)

/-- What the tweak of block `i` says, in a pass of `count` blocks over `len` bytes. -/
def fields (s : StateSize) (t : BlockType) (len count : Nat) (padded : Bool) (i : Nat) :
    Tweak.Fields where
  blockType := t
  position := min ((i + 1) * s.blockLen) len % Tweak.positionLimit
  first := i = 0
  final := i + 1 = count
  bitPad := padded && i + 1 = count

/-- An input whose last byte holds `validBits` bits: they are kept, the next bit is set, and the
    rest are cleared. -/
def padLast (data : Bytes) (validBits : Nat) : Bytes :=
  data.modify (data.length - 1) fun last =>
    Bits.packByte ((Bits.ofByte last).take validBits ++ [true])

/-! ## Compressing -/

/-- The chaining value after blocks 0 to `n - 1` of a pass of `count` blocks. -/
def compressFirst (c : Compression s σ) (chaining : σ) (t : BlockType) (data : Bytes)
    (count : Nat) (padded : Bool) (n : Nat) : σ :=
  (List.range n).foldl
    (fun g i => c.compress g (fields s t data.length count padded i).pack (block s data i)) chaining

/-- The chaining value after a pass. -/
def pass (c : Compression s σ) (chaining : σ) (t : BlockType) (data : Bytes) (padded : Bool) : σ :=
  let count := blockCount s data.length
  compressFirst c chaining t data count padded count

/-! ## A pass in progress -/

/-- The number of blocks that have been compressed when `len` bytes have been read: all but the
    last, which may turn out to be the last of the pass. -/
def compressedBlocks (s : StateSize) (len : Nat) : Nat :=
  if len = 0 then 0 else (len + s.blockLen - 1) / s.blockLen - 1

end SkeinHash.Ubi.Blockwise
