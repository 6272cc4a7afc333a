import SkeinHash.Context

/-!
# Incremental MAC

A context for message authentication codes, with explicit control over when the keyed state is
used again. It is a `Context` that can be initialised in two ways only: with a key, which saves the
keyed state, or from the keyed state saved last.
-/

namespace SkeinHash.Mac

/-- How to start a message. -/
inductive Init where
  /-- Under a key, which may have any length, for a tag of `bits` bits. -/
  | keyed (key : Bytes) (bits : Nat)
  /-- From the keyed state saved last, with its tag length. -/
  | reuse

/-- Shows the key bytes and the tag length. -/
def Init.describe : Init → Description
  | keyed key bits =>
    .record "Keyed"
      [("key", .list (key.map fun b => .number b.toNat)), ("hash_bit_len", .number bits)] false
  | reuse => .atom "Reuse"

/-- A context for message authentication codes. -/
structure IncrementalContext (s : StateSize) where
  /-- The hashing context. -/
  inner : Context s

namespace IncrementalContext

variable {s : StateSize}

/-- A context that has to be initialised before use. -/
def new (s : StateSize) : IncrementalContext s := ⟨.new s⟩

/-- A context for a state size given in bits. -/
def prepare (stateBits : Nat) :
    Except ParameterError ((s : StateSize) × IncrementalContext s) :=
  (Context.prepare stateBits).map fun ⟨s, ctx⟩ => ⟨s, ⟨ctx⟩⟩

/-- Starts a message. -/
def init (ctx : IncrementalContext s) : Init → Except Failure Unit × IncrementalContext s
  | .keyed key bits =>
    let (outcome, inner) := ctx.inner.initWithKey key bits
    (outcome.mapError .parameter, ⟨inner⟩)
  | .reuse =>
    let (outcome, inner) := ctx.inner.initFromSaved
    (outcome.mapError .sequence, ⟨inner⟩)

/-- Takes in `data`. -/
def update (ctx : IncrementalContext s) (data : Bytes) :
    Except SequenceError Unit × IncrementalContext s :=
  let (outcome, inner) := ctx.inner.update data
  (outcome, ⟨inner⟩)

/-- Takes in the first `bitCount` bits of `data`. -/
def updateBits (ctx : IncrementalContext s) (data : Bytes) (bitCount : Nat) :
    Except Failure Unit × IncrementalContext s :=
  let (outcome, inner) := ctx.inner.updateBits data bitCount
  (outcome, ⟨inner⟩)

/-- Writes the tag over the first `outputLen` bytes of `out`. -/
def finish (ctx : IncrementalContext s) (out : Bytes) :
    Except Failure Unit × Bytes × IncrementalContext s :=
  let (outcome, out, inner) := ctx.inner.finish out
  (outcome, out, ⟨inner⟩)

/-- The tag length in bytes. -/
def outputLen (ctx : IncrementalContext s) : Nat := ctx.inner.outputLen

/-- Shows what the hashing context shows. -/
def describe (ctx : IncrementalContext s) : Description :=
  .record "MacContext" [("inner", ctx.inner.describe)] false

end IncrementalContext

end SkeinHash.Mac
