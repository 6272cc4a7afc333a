import SkeinHash.Ubi

/-!
# Hashing as a composition of passes

The output of the hash put together from single passes, each started from the chaining value of the
one before: the key, unless it is empty, the configuration, the message, and for each block of the
output a pass over its number.
-/

namespace SkeinHash.Composition

variable {s : StateSize}

/-- The chaining value after the key. -/
def afterKey (s : StateSize) (key : Bytes) : Except ParameterError (Block s) :=
  if key = [] then .ok (Block.zero s) else ubi (Block.zero s) .key key (8 * key.length)

/-- The chaining value after the message. -/
def afterMessage (s : StateSize) (key : Bytes) (bits : Nat) (data : Bytes) (bitCount : Nat) :
    Except ParameterError (Block s) := do
  let g ← afterKey s key
  let g ← ubi g .config (Config.encode bits) 256
  ubi g .message data bitCount

/-- Byte `k` of the output that follows a chaining value. -/
def outputByte (message : Block s) (k : Nat) : Except ParameterError UInt8 := do
  let g ← ubi message .output (LittleEndian.wordBytes (UInt64.ofNat (k / s.blockLen))) 64
  return (LittleEndian.encode g.toList)[k % s.blockLen]?.getD 0

/-- An output of `bits` bits for the first `bitCount` bits of `data`. -/
def hash (s : StateSize) (key : Bytes) (bits : Nat) (data : Bytes) (bitCount : Nat) :
    Except ParameterError Bytes := do
  let g ← afterMessage s key bits data bitCount
  let out ← (List.range (byteCount bits)).mapM (outputByte g)
  return Bytes.maskLast bits out

end SkeinHash.Composition
