import SkeinHash.Buffer
import SkeinHash.Config
import SkeinHash.Threefish.Cipher
import SkeinHash.Tweak

/-!
# Unique block iteration

A pass takes in a byte string of any length and compresses it, block by block, into the chaining
value. The last block of a pass is zero-padded and flagged as final, so a full buffer is held back
until more input shows that it is not the last. Input that ends inside a byte is padded by a one
bit and zeros, and the tweak says so.

The iteration is generic in its compression function. `Compression.threefish` is the one that
hashes; `Compression.record` writes down what is compressed.

- `Ubi.start`, `absorb`, `padPartialByte`, `finishPass`: the parts of a pass
- `Ubi.pass`: a whole pass
- `Ubi.init`: the passes over the key and the configuration, and the start of the message
- `Ubi.output`: the passes over the output counter, which give the result
-/

namespace SkeinHash

/-! ## Compression functions -/

/-- A way of compressing one block into a chaining value. -/
structure Compression (s : StateSize) (σ : Type) where
  /-- The chaining value before the first pass. -/
  initial : σ
  /-- Takes in one block with its tweak. -/
  compress : σ → Tweak → Block s → σ
  /-- The chaining value as words. -/
  value : σ → Block s

namespace Compression

/-- Encrypts the block under the chaining value and feeds the block forward. -/
def threefish (s : StateSize) : Compression s (Block s) where
  initial := Block.zero s
  compress chaining tweak block :=
    Block.xor ((Threefish.ofWords chaining tweak.low tweak.high).encrypt block) block
  value chaining := chaining

/-- Writes down each tweak and block, in order. -/
def record (s : StateSize) : Compression s (List (Tweak × Block s)) where
  initial := []
  compress log tweak block := log ++ [(tweak, block)]
  value _ := Block.zero s

end Compression

/-! ## The state of the iteration -/

/-- The state of the iteration. -/
structure Ubi (s : StateSize) (σ : Type) where
  /-- The chaining value. -/
  chaining : σ
  /-- The chaining value that `restore` goes back to. -/
  saved : σ
  /-- The tweak of the next block. -/
  tweak : Tweak
  /-- Input that is not compressed yet. What stands behind the first `numPending` bytes is left
      over from earlier blocks. -/
  pending : Buffer s.blockLen
  /-- How many bytes of `pending` are input. Between calls this is at most a block, and a full
      block is compressed only when more input comes. -/
  numPending : Nat

namespace Ubi

variable {s : StateSize} {σ : Type}

/-- A state with the given chaining value, before any pass. -/
def ofChaining (c : Compression s σ) (chaining : σ) : Ubi s σ where
  chaining
  saved := c.initial
  tweak := .new .message
  pending := .zero s.blockLen
  numPending := 0

/-- The state before any pass. -/
def new (c : Compression s σ) : Ubi s σ := ofChaining c c.initial

/-! ## The parts of a pass -/

/-- Starts a pass from the current chaining value. -/
def start (u : Ubi s σ) (t : BlockType) : Ubi s σ := { u with tweak := .new t, numPending := 0 }

/-- Appends input to the pending bytes. -/
def hold (u : Ubi s σ) (data : Bytes) : Ubi s σ :=
  { u with
    pending := u.pending.write u.numPending data
    numPending := u.numPending + data.length }

/-- Compresses the pending block, of which `len` bytes are input. -/
def compressPending (c : Compression s σ) (u : Ubi s σ) (len : Nat) : Ubi s σ :=
  -- The position of a block counts the bytes up to its end.
  let tweak := u.tweak.addPosition len
  { u with
    chaining := c.compress u.chaining tweak (LittleEndian.words u.pending)
    tweak := tweak.clearFirst
    numPending := 0 }

/-- Takes in `data`. A block is compressed when it is full and more input follows. -/
def absorb (c : Compression s σ) (u : Ubi s σ) (data : Bytes) : Ubi s σ :=
  let room := s.blockLen - u.numPending
  -- Input that just fills the block may be the end of the message, so it is only held.
  if data.drop room = [] then u.hold data
  else ((u.hold (data.take room)).compressPending c s.blockLen).absorb c (data.drop room)
termination_by data.length + u.numPending
decreasing_by
  have hpos := s.blockLen_pos
  simp only [List.drop_eq_nil_iff, Nat.not_le] at *
  simp only [compressPending, List.length_drop]
  omega

/-- Pads the last pending byte, of which the `validBits` most significant bits are input: the next
    bit is set and the rest are cleared. Without a pending byte nothing happens. -/
def padPartialByte (u : Ubi s σ) (validBits : Nat) : Ubi s σ :=
  if u.numPending = 0 then u
  else
    -- The negative of the marker has the marker and all bits above it.
    let marker : UInt8 := 0x80 >>> UInt8.ofNat validBits
    { u with
      pending := u.pending.modify (u.numPending - 1) fun last => (last &&& -marker) ||| marker
      tweak := u.tweak.setBitPad }

/-- Pads the pending bytes with zeros and compresses them as the last block of the pass. -/
def finishPass (c : Compression s σ) (u : Ubi s σ) : Ubi s σ :=
  { u with
    pending := u.pending.clearFrom u.numPending
    tweak := u.tweak.setFinal }.compressPending c u.numPending

/-- Takes in the first `bitCount` bits of `data`, the bytes that hold them. -/
def absorbBits (c : Compression s σ) (u : Ubi s σ) (data : Bytes) (bitCount : Nat) : Ubi s σ :=
  let u := u.absorb c data
  if bitCount % 8 = 0 then u else u.padPartialByte (bitCount % 8)

/-! ## Passes -/

/-- A whole pass over `input`. -/
def pass (c : Compression s σ) (u : Ubi s σ) (t : BlockType) (input : Bytes) : Ubi s σ :=
  ((u.start t).absorb c input).finishPass c

/-- From the initial chaining value, runs the pass over the key, unless the key is empty, and the
    pass over the configuration for an output of `bits` bits. Then starts the message. -/
def init (c : Compression s σ) (u : Ubi s σ) (key : Bytes) (bits : Nat) : Ubi s σ :=
  let u := { u with chaining := c.initial }
  -- No pass at all stands for an empty key.
  let u := if key.isEmpty then u else u.pass c .key key
  (u.pass c .config (Config.encode bits)).start .message

/-- Saves the chaining value. -/
def save (u : Ubi s σ) : Ubi s σ := { u with saved := u.chaining }

/-- Goes back to the saved chaining value and starts a message. -/
def restore (u : Ubi s σ) : Ubi s σ := { u with chaining := u.saved }.start .message

/-! ## Output -/

/-- The `n` output bytes from counter value `counter` on. Every counter value has a pass of its own
    from the chaining value `message`, which gives one block of output. -/
def outputFrom (c : Compression s σ) (message : σ) (u : Ubi s σ) (counter n : Nat) :
    Bytes × Ubi s σ :=
  if n = 0 then ([], u)
  else
    -- Each pass starts from the message, not from the output before it.
    let u := { u with chaining := message }.pass c .output
      (LittleEndian.wordBytes (UInt64.ofNat counter))
    let block := LittleEndian.encode (c.value u.chaining).toList
    let (rest, u) := outputFrom c message u (counter + 1) (n - s.blockLen)
    (block.take n ++ rest, u)
termination_by n
decreasing_by
  have := s.blockLen_pos
  omega

/-- The `n` output bytes of the current chaining value, which stays as it is. -/
def output (c : Compression s σ) (u : Ubi s σ) (n : Nat) : Bytes × Ubi s σ :=
  let (out, u') := outputFrom c u.chaining u 0 n
  (out, { u' with chaining := u.chaining })

/-- Ends the message and gives an output of `bits` bits. Output bits are numbered from the most
    significant bit of each byte, so the low-order bits that a last partial byte does not use are
    cleared. -/
def finish (c : Compression s σ) (u : Ubi s σ) (bits : Nat) : Bytes × Ubi s σ :=
  let (out, u) := (u.finishPass c).output c (byteCount bits)
  (out.maskLast bits, u)

end Ubi

/-! ## One pass on its own -/

/-- The bytes that hold the first `bitCount` bits of `data`, if it has that many. -/
def leadingBytes (data : Bytes) (bitCount : Nat) : Except ParameterError Bytes :=
  if byteCount bitCount ≤ data.length then .ok (data.take (byteCount bitCount))
  else .error .bitCount

/-- The chaining value after one pass over the first `bitCount` bits of `input`. -/
def ubi {s : StateSize} (chaining : Block s) (t : BlockType) (input : Bytes) (bitCount : Nat) :
    Except ParameterError (Block s) :=
  match leadingBytes input bitCount with
  | .error e => .error e
  | .ok data =>
    let c := Compression.threefish s
    .ok ((((Ubi.ofChaining c chaining).start t).absorbBits c data bitCount).finishPass c).chaining

end SkeinHash
