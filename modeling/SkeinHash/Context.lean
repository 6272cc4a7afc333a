import SkeinHash.Ubi

/-!
# Incremental hashing

A context is prepared with a state size, initialised with an output length and possibly a key,
takes in any number of pieces of input, and is asked for the output once; then it can be
initialised again. A keyed state can be saved and started from again without the key.

Every call returns its outcome together with the context afterwards, so that it can be seen what a
failing call does to the context: nothing.

- `Context.init`, `initWithKey`, `initFromSaved`: start a message
- `Context.update`, `updateBits`: take in whole bytes, or a number of bits
- `Context.finish`: the output
- `Context.outputBits`, `outputLen`: the output length
-/

namespace SkeinHash

/-- Where a context stands in its life. From the first initialisation on it has an output length,
    in bits. -/
inductive Phase where
  /-- Not initialised yet. -/
  | prepared
  /-- Taking in a message. -/
  | absorbing (outputBits : Nat)
  /-- The output has been given. -/
  | finalized (outputBits : Nat)
deriving DecidableEq

/-- The name of a phase, as descriptions show it. -/
def Phase.name : Phase → String
  | prepared => "Prepared"
  | absorbing _ => "Absorbing"
  | finalized _ => "Finalized"

/-- A context for incremental hashing, keyed or not. -/
structure Context (s : StateSize) where
  /-- The state of the iteration. -/
  state : Ubi s (Block s)
  /-- Where the context stands. -/
  phase : Phase
  /-- The output length of the saved keyed state, if one has been saved. -/
  savedBits : Option Nat

namespace Context

variable {s : StateSize}

/-! ## Construction and queries -/

/-- A context that has to be initialised before use. -/
def new (s : StateSize) : Context s := ⟨Ubi.new (.threefish s), .prepared, none⟩

/-- A context for a state size given in bits. -/
def prepare (stateBits : Nat) : Except ParameterError ((s : StateSize) × Context s) :=
  match StateSize.ofBits? stateBits with
  | some s => .ok ⟨s, new s⟩
  | none => .error .stateSize

/-- The output length in bits, which is zero before the first initialisation. -/
def outputBits (ctx : Context s) : Nat :=
  match ctx.phase with
  | .prepared => 0
  | .absorbing bits => bits
  | .finalized bits => bits

/-- The output length in bytes. -/
def outputLen (ctx : Context s) : Nat := byteCount ctx.outputBits

/-- The output length of the message being taken in; outside of a message, why there is none. -/
def checkAbsorbing (ctx : Context s) : Except SequenceError Nat :=
  match ctx.phase with
  | .prepared => .error .notInitialized
  | .absorbing bits => .ok bits
  | .finalized _ => .error .alreadyFinalized

/-- Whether input is accepted: only inside a message, and not after a partial byte. -/
def checkAccepting (ctx : Context s) : Except SequenceError Unit :=
  match ctx.checkAbsorbing with
  | .error e => .error e
  -- The tweak remembers that the last piece of input ended inside a byte.
  | .ok _ => if ctx.state.tweak.isBitPad then .error .partialByteNotLast else .ok ()

/-! ## Initialisation -/

/-- Starts a message under a key, which may be empty, without saving the keyed state. -/
def initKeyed (ctx : Context s) (key : Bytes) (bits : Nat) :
    Except ParameterError Unit × Context s :=
  if bits = 0 then (.error .outputBits, ctx)
  else (.ok (), { ctx with
    state := ctx.state.init (.threefish s) key bits
    phase := .absorbing bits })

/-- Starts a message without a key, for an output of `bits` bits, which may be any number but zero.
    Earlier input is discarded. -/
def init (ctx : Context s) (bits : Nat) : Except ParameterError Unit × Context s :=
  ctx.initKeyed [] bits

/-- Starts a message under a key and saves the keyed state. An empty key is no key, and a length of
    zero is refused with any key. -/
def initWithKey (ctx : Context s) (key : Bytes) (bits : Nat) :
    Except ParameterError Unit × Context s :=
  match ctx.initKeyed key bits with
  | (.error e, ctx) => (.error e, ctx)
  | (.ok (), ctx) => (.ok (), { ctx with state := ctx.state.save, savedBits := some bits })

/-- Starts a message from the saved keyed state, with its output length. -/
def initFromSaved (ctx : Context s) : Except SequenceError Unit × Context s :=
  match ctx.savedBits with
  | none => (.error .noSavedKeyState, ctx)
  | some bits => (.ok (), { ctx with state := ctx.state.restore, phase := .absorbing bits })

/-! ## Input -/

/-- Takes in `data`. -/
def update (ctx : Context s) (data : Bytes) : Except SequenceError Unit × Context s :=
  match ctx.checkAccepting with
  | .error e => (.error e, ctx)
  | .ok () => (.ok (), { ctx with state := ctx.state.absorb (.threefish s) data })

/-- Takes in the first `bitCount` bits of `data`, the most significant bit of each byte first. A
    count that is not a multiple of 8 ends the message with a partial byte. -/
def updateBits (ctx : Context s) (data : Bytes) (bitCount : Nat) :
    Except Failure Unit × Context s :=
  match ctx.checkAccepting with
  | .error e => (.error (.sequence e), ctx)
  | .ok () =>
    -- A context that refuses input does not look at the number of bits.
    match leadingBytes data bitCount with
    | .error e => (.error (.parameter e), ctx)
    | .ok data =>
      (.ok (), { ctx with state := ctx.state.absorbBits (.threefish s) data bitCount })

/-! ## Output -/

/-- Writes the output over the first `outputLen` bytes of `out`. Returns the outcome, the buffer
    and the context afterwards. -/
def finish (ctx : Context s) (out : Bytes) : Except Failure Unit × Bytes × Context s :=
  match ctx.checkAbsorbing with
  | .error e => (.error (.sequence e), out, ctx)
  | .ok bits =>
    -- The message can still be finished with a larger buffer.
    if out.length < byteCount bits then (.error (.parameter .outputTooSmall), out, ctx)
    else
      let (digest, state) := ctx.state.finish (.threefish s) bits
      (.ok (), digest ++ out.drop (byteCount bits), { ctx with state, phase := .finalized bits })

/-! ## Description -/

/-- Shows the state size, the output length and the phase; the rest stays hidden. -/
def describe (ctx : Context s) : Description :=
  .record "Context"
    [("state_size", .atom s.name), ("hash_bit_len", .number ctx.outputBits),
      ("phase", .atom ctx.phase.name)] true

end Context

end SkeinHash
