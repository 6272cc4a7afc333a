import SkeinHash.Context.Call
import SkeinHash.Mac
import SkeinHash.RangeChecked

/-!
# Hashing with explicit range checks

The passes, and the calls on contexts, digests and MACs, with the checks of `SkeinHash.RangeChecked`
before every step. Blocks go through the checked cipher.

- `absorb?`, `padPartialByte?`, `finishPass?`, `finish?`: the parts of a hash
- `call?`: the calls on a context
- `updateDigest?`, `digest?`, `updateTag?`, `tag?`: the calls on a digest or a tag in the making
-/

namespace SkeinHash.RangeChecked

/-! ## Buffers -/

section Buffers

variable {n : Nat}

/-- Copies `data` to the positions from `start` to before `stop`, which it must fill exactly. -/
def copy? (b : Buffer n) (start stop : Nat) (data : Bytes) : Option (Buffer n) :=
  if start ≤ stop ∧ stop ≤ n ∧ data.length = stop - start then some (b.write start data) else none

/-- Zeros the bytes from a position up to the end of the buffer on. -/
def clearFrom? (b : Buffer n) (start : Nat) : Option (Buffer n) :=
  if start ≤ n then some (b.clearFrom start) else none

end Buffers

/-! ## Passes -/

section Passes

variable {s : StateSize}

/-- Compresses the pending block, of which `len` bytes are input. -/
def compressPending? (u : Ubi s (Block s)) (len : Nat) : Option (Ubi s (Block s)) := do
  let tweak := u.tweak.addPosition len
  let block := LittleEndian.words u.pending
  let encrypted ← encrypt? (Threefish.ofWords u.chaining tweak.low tweak.high) block
  return { u with
    chaining := Block.xor encrypted block
    tweak := tweak.clearFirst
    numPending := 0 }

/-- Fills up a block that is pending in part and compresses it. Returns what is left of `data`. -/
def fillPending? (u : Ubi s (Block s)) (data : Bytes) : Option (Ubi s (Block s) × Bytes) :=
  if u.numPending = 0 then some (u, data)
  else do
    let room ← sub? s.blockLen u.numPending
    let (first, rest) ← splitAt? data room
    let pending ← copy? u.pending u.numPending s.blockLen first
    return (← compressPending? { u with pending } s.blockLen, rest)

/-- Compresses blocks of `data` as long as more follows. Returns what is left of `data`. -/
def absorbBlocks? (u : Ubi s (Block s)) (data : Bytes) : Option (Ubi s (Block s) × Bytes) :=
  if data.length ≤ s.blockLen then some (u, data)
  else do
    let (block, _) ← splitAt? data s.blockLen
    let pending ← copy? u.pending 0 s.blockLen block
    absorbBlocks? (← compressPending? { u with pending } s.blockLen) (data.drop s.blockLen)
termination_by data.length
decreasing_by
  have := s.blockLen_pos
  simp only [List.length_drop]
  omega

/-- Appends input to the pending bytes. -/
def hold? (u : Ubi s (Block s)) (data : Bytes) : Option (Ubi s (Block s)) := do
  let stop ← add? u.numPending data.length
  let pending ← copy? u.pending u.numPending stop data
  return { u with pending, numPending := stop }

/-- Takes in `data`. Only input that does not fit into the block makes blocks be compressed. -/
def absorb? (u : Ubi s (Block s)) (data : Bytes) : Option (Ubi s (Block s)) := do
  let total ← add? u.numPending data.length
  if total ≤ s.blockLen then hold? u data
  else
    let (u, rest) ← fillPending? u data
    -- Nothing is pending from here on, so whole blocks are taken from the input.
    let (u, rest) ← absorbBlocks? u rest
    hold? u rest

/-- Pads the last pending byte, of which 1 to 7 bits are input. -/
def padPartialByte? (u : Ubi s (Block s)) (validBits : Nat) : Option (Ubi s (Block s)) := do
  -- With 0 bits there is no partial byte, and with 8 its marker would be shifted out of it.
  guard (0 < validBits ∧ validBits < 8)
  let marker ← shiftRight? 0x80 validBits
  let (held, _) ← splitAt? u.pending.toList u.numPending
  if held = [] then return u
  else return { u with
    pending := u.pending.modify (held.length - 1) fun last => (last &&& -marker) ||| marker
    tweak := u.tweak.setBitPad }

/-- Pads the pending bytes with zeros and compresses them as the last block of the pass. -/
def finishPass? (u : Ubi s (Block s)) : Option (Ubi s (Block s)) := do
  let pending ← clearFrom? u.pending u.numPending
  compressPending? { u with pending, tweak := u.tweak.setFinal } u.numPending

/-- A whole pass over `input`. -/
def pass? (u : Ubi s (Block s)) (t : BlockType) (input : Bytes) : Option (Ubi s (Block s)) := do
  finishPass? (← absorb? (u.start t) input)

/-- The passes over the key and the configuration, and the start of the message. -/
def init? (u : Ubi s (Block s)) (key : Bytes) (bits : Nat) : Option (Ubi s (Block s)) := do
  let u := { u with chaining := Block.zero s }
  let u ← if key.isEmpty then some u else pass? u .key key
  return (← pass? u .config (Config.encode bits)).start .message

/-- Takes in the first `bitCount` bits of `data`, the bytes that hold them. -/
def absorbBits? (u : Ubi s (Block s)) (data : Bytes) (bitCount : Nat) :
    Option (Ubi s (Block s)) := do
  let u ← absorb? u data
  if bitCount % 8 = 0 then return u else padPartialByte? u (bitCount % 8)

/-! ## Output -/

/-- Fills `out` with the output from counter value `counter` on, block by block. -/
def outputFrom? (message : Block s) (u : Ubi s (Block s)) (counter : Nat) (out : Bytes) :
    Option (Bytes × Ubi s (Block s)) :=
  if out = [] then some ([], u)
  else do
    let u ← pass? { u with chaining := message } .output
      (LittleEndian.wordBytes (UInt64.ofNat counter))
    let written ← writeWords? u.chaining.toList (out.take s.blockLen)
    let (rest, u) ← outputFrom? message u (← add? counter 1) (out.drop s.blockLen)
    return (written ++ rest, u)
termination_by out.length
decreasing_by
  have := s.blockLen_pos
  have := List.length_pos_iff.mpr ‹out ≠ []›
  simp only [List.length_drop]
  omega

/-- Ends the message and fills `out` with the output of `bits` bits, for which it must be as long as
    the output. -/
def finish? (u : Ubi s (Block s)) (bits : Nat) (out : Bytes) :
    Option (Bytes × Ubi s (Block s)) := do
  guard (out.length = (← byteCount? bits))
  let u ← finishPass? u
  let (written, u') ← outputFrom? u.chaining u 0 out
  -- The output passes start from the message, which stays the chaining value.
  let u' := { u' with chaining := u.chaining }
  if bits % 8 = 0 then return (written, u')
  else
    let mask ← shiftLeft? 0xff (← sub? 8 (bits % 8))
    return (written.modify (written.length - 1) (· &&& mask), u')

end Passes

/-! ## Contexts -/

section Contexts

variable {s : StateSize}

/-- Starts a message under a key, which may be empty. -/
def initKeyed? (ctx : Context s) (key : Bytes) (bits : Nat) :
    Option (Except ParameterError Unit × Context s) :=
  if bits = 0 then some (.error .outputBits, ctx)
  else do
    let state ← init? ctx.state key bits
    return (.ok (), { ctx with state, phase := .absorbing bits })

/-- Starts a message under a key and saves the keyed state. -/
def initWithKey? (ctx : Context s) (key : Bytes) (bits : Nat) :
    Option (Except ParameterError Unit × Context s) := do
  match ← initKeyed? ctx key bits with
  | (.error e, ctx) => return (.error e, ctx)
  | (.ok (), ctx) => return (.ok (), { ctx with state := ctx.state.save, savedBits := some bits })

/-- Takes in `data`. -/
def update? (ctx : Context s) (data : Bytes) : Option (Except SequenceError Unit × Context s) :=
  match ctx.checkAccepting with
  | .error e => some (.error e, ctx)
  | .ok () => do
    let state ← absorb? ctx.state data
    return (.ok (), { ctx with state })

/-- Takes in the first `bitCount` bits of `data`. -/
def updateBits? (ctx : Context s) (data : Bytes) (bitCount : Nat) :
    Option (Except Failure Unit × Context s) :=
  match ctx.checkAccepting with
  | .error e => some (.error (.sequence e), ctx)
  | .ok () => do
    let len ← byteCount? bitCount
    if data.length < len then return (.error (.parameter .bitCount), ctx)
    else
      let state ← absorbBits? ctx.state (data.take len) bitCount
      return (.ok (), { ctx with state })

/-- Writes the output over the first bytes of `out`. -/
def finishInto? (ctx : Context s) (out : Bytes) :
    Option (Except Failure Unit × Bytes × Context s) :=
  match ctx.checkAbsorbing with
  | .error e => some (.error (.sequence e), out, ctx)
  | .ok bits => do
    let len ← byteCount? bits
    if out.length < len then return (.error (.parameter .outputTooSmall), out, ctx)
    else
      let (written, state) ← finish? ctx.state bits (out.take len)
      return (.ok (), written ++ out.drop len, { ctx with state, phase := .finalized bits })

/-- Makes a call on a context. -/
def call? (ctx : Context s) : Context.Call → Option (Context.Reply × Context s)
  | .init bits => do
    let (outcome, ctx) ← initKeyed? ctx [] bits
    return (⟨outcome.mapError .parameter, []⟩, ctx)
  | .initWithKey key bits => do
    let (outcome, ctx) ← initWithKey? ctx key bits
    return (⟨outcome.mapError .parameter, []⟩, ctx)
  | .initFromSaved =>
    -- There is nothing to check.
    let (outcome, ctx) := ctx.initFromSaved
    some (⟨outcome.mapError .sequence, []⟩, ctx)
  | .update data => do
    let (outcome, ctx) ← update? ctx data
    return (⟨outcome.mapError .sequence, []⟩, ctx)
  | .updateBits data bitCount => do
    let (outcome, ctx) ← updateBits? ctx data bitCount
    return (⟨outcome, []⟩, ctx)
  | .finish out => do
    let (outcome, out, ctx) ← finishInto? ctx out
    return (⟨outcome, out⟩, ctx)

/-- Makes a call on an incremental MAC. -/
def macCall? (ctx : Mac.IncrementalContext s) (call : Mac.Call) :
    Option (Context.Reply × Mac.IncrementalContext s) := do
  let (reply, inner) ← call? ctx.inner call.inner
  return (reply, ⟨inner⟩)

end Contexts

/-! ## Digests -/

/-- Starts a message for a digest under a key, which may be empty. -/
def withKey? (a : Algorithm) (key : Bytes) : Option DigestContext := do
  let state ← init? (Ubi.new (.threefish a.size)) key a.outputBits
  return ⟨a, state⟩

/-- Takes in `data` for a digest. -/
def updateDigest? (ctx : DigestContext) (data : Bytes) : Option DigestContext := do
  let state ← absorb? ctx.state data
  return { ctx with state }

/-- Gives the digest. It is made in a buffer that has room for the longest one. -/
def digest? (ctx : DigestContext) : Option Digest := do
  let bits := ctx.algorithm.outputBits
  let (out, _) ← splitAt? (List.replicate Algorithm.maxOutputLen 0) (← byteCount? bits)
  let (value, _) ← finish? ctx.state bits out
  return { algorithm := ctx.algorithm, value }

/-- Takes in `data` for a tag. -/
def updateTag? (ctx : Mac.Signing) (data : Bytes) : Option Mac.Signing := do
  let inner ← updateDigest? ctx.inner data
  return ⟨inner⟩

/-- Gives the tag. -/
def tag? (ctx : Mac.Signing) : Option Mac.Tag := do
  let digest ← digest? ctx.inner
  return ⟨digest⟩

end SkeinHash.RangeChecked
