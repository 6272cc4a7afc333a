import SkeinHash.Mac.Context

/-!
# Calls on a context

The operations of a context as values, so that one can speak of all sequences of calls. Every call
gives a reply: its outcome and, for a call that fills a buffer, the buffer afterwards.
-/

namespace SkeinHash.Context

/-- A call on a context. -/
inductive Call where
  | init (bits : Nat)
  | initWithKey (key : Bytes) (bits : Nat)
  | initFromSaved
  | update (data : Bytes)
  | updateBits (data : Bytes) (bitCount : Nat)
  | finish (out : Bytes)
deriving DecidableEq

/-- The buffer that a call is given; without one it is empty. -/
def Call.buffer : Call → Bytes
  | finish out => out
  | _ => []

/-- What a call gives back. -/
structure Reply where
  /-- The outcome. -/
  outcome : Except Failure Unit
  /-- The buffer afterwards; for a call without a buffer it is empty. -/
  out : Bytes

/-- Whether a call succeeded. -/
def Reply.succeeded (r : Reply) : Bool := r.outcome.isOk

/-- The calls of a run that succeeded, by their replies. -/
def succeeding {κ : Type} (calls : List κ) (replies : List Reply) : List κ :=
  ((calls.zip replies).filter (·.2.succeeded)).map (·.1)

variable {s : StateSize}

/-- Makes a call. -/
def apply (ctx : Context s) : Call → Reply × Context s
  | .init bits =>
    let (outcome, ctx) := ctx.init bits
    (⟨outcome.mapError .parameter, []⟩, ctx)
  | .initWithKey key bits =>
    let (outcome, ctx) := ctx.initWithKey key bits
    (⟨outcome.mapError .parameter, []⟩, ctx)
  | .initFromSaved =>
    let (outcome, ctx) := ctx.initFromSaved
    (⟨outcome.mapError .sequence, []⟩, ctx)
  | .update data =>
    let (outcome, ctx) := ctx.update data
    (⟨outcome.mapError .sequence, []⟩, ctx)
  | .updateBits data bitCount =>
    let (outcome, ctx) := ctx.updateBits data bitCount
    (⟨outcome, []⟩, ctx)
  | .finish out =>
    let (outcome, out, ctx) := ctx.finish out
    (⟨outcome, out⟩, ctx)

/-- Makes calls in order. Returns the replies and the context afterwards. -/
def run (ctx : Context s) : List Call → List Reply × Context s
  | [] => ([], ctx)
  | call :: rest =>
    let (reply, ctx) := ctx.apply call
    let (replies, ctx) := ctx.run rest
    (reply :: replies, ctx)

end SkeinHash.Context

/-! ## The incremental MAC -/

namespace SkeinHash.Mac

/-- A call on an incremental MAC. -/
inductive Call where
  | init (start : Init)
  | update (data : Bytes)
  | updateBits (data : Bytes) (bitCount : Nat)
  | finish (out : Bytes)

/-- The call on the hashing context that a call comes to. -/
def Call.inner : Call → Context.Call
  | init (.keyed key bits) => .initWithKey key bits
  | init .reuse => .initFromSaved
  | update data => .update data
  | updateBits data bitCount => .updateBits data bitCount
  | finish out => .finish out

namespace IncrementalContext

variable {s : StateSize}

/-- Makes a call. -/
def apply (ctx : IncrementalContext s) : Call → Context.Reply × IncrementalContext s
  | .init start =>
    let (outcome, ctx) := ctx.init start
    (⟨outcome, []⟩, ctx)
  | .update data =>
    let (outcome, ctx) := ctx.update data
    (⟨outcome.mapError .sequence, []⟩, ctx)
  | .updateBits data bitCount =>
    let (outcome, ctx) := ctx.updateBits data bitCount
    (⟨outcome, []⟩, ctx)
  | .finish out =>
    let (outcome, out, ctx) := ctx.finish out
    (⟨outcome, out⟩, ctx)

/-- Makes calls in order. Returns the replies and the context afterwards. -/
def run (ctx : IncrementalContext s) : List Call → List Context.Reply × IncrementalContext s
  | [] => ([], ctx)
  | call :: rest =>
    let (reply, ctx) := ctx.apply call
    let (replies, ctx) := ctx.run rest
    (reply :: replies, ctx)

/-- A call on an incremental MAC is the call on its hashing context that it comes to. -/
theorem apply_eq (ctx : IncrementalContext s) (call : Call) :
    ctx.apply call = ((ctx.inner.apply call.inner).1, ⟨(ctx.inner.apply call.inner).2⟩) := by
  rcases call with (start | start) | _ | _ | _ <;> rfl

end IncrementalContext

end SkeinHash.Mac
