import SkeinHash.Threefish.Cipher

/-!
# Ciphers with explicit range checks

The operations of the cipher once more, with a check before every step that could leave a buffer, a
table or a word: a sum of lengths must fit into a word of 64 bits, a difference must not fall below
zero, a position must be inside of what it points into, a piece that is copied must be as long as the
place it goes to, and a byte is shifted by less than 8 places. `none` says that a check failed.

`RangeChecked.Calls` does the same for the passes and for contexts.
-/

namespace SkeinHash.RangeChecked

/-! ## Lengths, shifts and buffers -/

/-- A sum that fits into a word. -/
def add? (a b : Nat) : Option Nat := if a + b < UInt64.size then some (a + b) else none

/-- A difference that is not below zero. -/
def sub? (a b : Nat) : Option Nat := if b ≤ a then some (a - b) else none

/-- How many bytes a number of bits occupies. -/
def byteCount? (bits : Nat) : Option Nat := add? (bits / 8) (if bits % 8 = 0 then 0 else 1)

/-- The byte string up to a position inside it, and the rest. -/
def splitAt? (data : Bytes) (i : Nat) : Option (Bytes × Bytes) :=
  if i ≤ data.length then some (data.take i, data.drop i) else none

/-- A byte shifted to the right by less than its width. -/
def shiftRight? (x : UInt8) (r : Nat) : Option UInt8 :=
  if r < 8 then some (x >>> UInt8.ofNat r) else none

/-- A byte shifted to the left by less than its width. -/
def shiftLeft? (x : UInt8) (r : Nat) : Option UInt8 :=
  if r < 8 then some (x <<< UInt8.ofNat r) else none

/-- Writes words over a byte string, 8 bytes a word. The last piece may be shorter, and then takes
    only as many bytes of its word as it has room for. -/
def writeWords? : List UInt64 → Bytes → Option Bytes
  | [], out => some out
  | w :: ws, out =>
    if out = [] then some []
    else do
      let piece := out.take 8
      let (bytes, _) ← splitAt? (LittleEndian.wordBytes w) piece.length
      guard (bytes.length = piece.length)
      return bytes ++ (← writeWords? ws (out.drop 8))

/-! ## Subkeys -/

section Cipher

variable {s : StateSize}

/-- Word `i` of subkey `d`. -/
def subkeyWord? (c : Threefish s) (d i : Nat) : Option UInt64 := do
  let place ← add? d i
  let k := c.key[place % (s.words + 1)]?.getD c.parity
  if i = (← sub? s.words 3) then return k + (← c.tweak[d % 3]?)
  else if i = (← sub? s.words 2) then return k + (← c.tweak[(← add? d 1) % 3]?)
  else if i = (← sub? s.words 1) then return k + UInt64.ofNat d
  else return k

/-- Adds subkey `d` word by word. -/
def addSubkey? (c : Threefish s) (d : Nat) (x : Block s) : Option (Block s) :=
  Vector.ofFnM fun i : Fin s.words => do return x.get i + (← subkeyWord? c d i)

/-- Subtracts subkey `d` word by word. -/
def subSubkey? (c : Threefish s) (d : Nat) (x : Block s) : Option (Block s) :=
  Vector.ofFnM fun i : Fin s.words => do return x.get i - (← subkeyWord? c d i)

/-! ## Rounds -/

/-- Replaces the words at two positions by what `f` makes of them. -/
def pairAt? (f : UInt64 → UInt64 → Nat → UInt64 × UInt64) (x : Block s)
    (step : (Nat × Nat) × Nat) : Option (Block s) := do
  let ((i, j), r) := step
  let (a, b) := f (← x[i]?) (← x[j]?) r
  return (x.setIfInBounds i a).setIfInBounds j b

/-- Does so with all pairs of round `d`, which stand in the tables. -/
def pairs? (f : UInt64 → UInt64 → Nat → UInt64 × UInt64) (d : Nat) (x : Block s) :
    Option (Block s) := do
  let pairs ← (Threefish.rounds s).pairs[d % 4]?
  let rotations ← (Threefish.rounds s).rotations[d % 8]?
  let steps := (pairs.zip rotations).map fun ((i, j), r) => ((i.val, j.val), r)
  steps.toList.foldlM (pairAt? f) x

/-- Round `d`. -/
def round? (c : Threefish s) (x : Block s) (d : Nat) : Option (Block s) := do
  let x ← pairs? Threefish.mix d x
  if d % 4 = 3 then addSubkey? c (← add? (d / 4) 1) x else return x

/-- Undoes round `d`. -/
def unround? (c : Threefish s) (x : Block s) (d : Nat) : Option (Block s) := do
  let x ← if d % 4 = 3 then subSubkey? c (← add? (d / 4) 1) x else pure x
  pairs? Threefish.unmix d x

/-! ## Blocks -/

/-- Encrypts one block. -/
def encrypt? (c : Threefish s) (block : Block s) : Option (Block s) := do
  (List.range (Threefish.rounds s).count).foldlM (round? c) (← addSubkey? c 0 block)

/-- Decrypts one block. -/
def decrypt? (c : Threefish s) (block : Block s) : Option (Block s) := do
  subSubkey? c 0 (← (List.range (Threefish.rounds s).count).reverse.foldlM (unround? c) block)

/-- Applies a function on blocks to a buffer, which has to be exactly one block long. -/
def onBytes? (f : Block s → Option (Block s)) (buffer : Bytes) :
    Option (Except ParameterError Unit × Bytes) :=
  match LittleEndian.ofBytes? s.words buffer with
  | none => some (.error .blockLen, buffer)
  | some block => do return (.ok (), ← writeWords? (← f block).toList buffer)

/-- Encrypts a buffer of one block in place. -/
def encryptBytes? (c : Threefish s) : Bytes → Option (Except ParameterError Unit × Bytes) :=
  onBytes? (encrypt? c)

/-- Decrypts a buffer of one block in place. -/
def decryptBytes? (c : Threefish s) : Bytes → Option (Except ParameterError Unit × Bytes) :=
  onBytes? (decrypt? c)

end Cipher

end SkeinHash.RangeChecked
