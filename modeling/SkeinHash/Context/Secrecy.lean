import SkeinHash.Context.Call

/-!
# What may be seen

The contents of keys and messages are secret, their lengths are not. `Call.redacted` is what may be
seen of a call, and `Context.visible` what may be seen of a context. Two calls look the same
(`LookSame`) if neither their outcomes nor the contexts after them can be told apart, and a call
that fills a buffer shows which part of it was written (`Overwrites`).
-/

namespace SkeinHash

/-- A byte string of which only the length is left. -/
def Bytes.redacted (data : Bytes) : Bytes := List.replicate data.length 0

namespace Context

/-- A call of which only the lengths of byte strings are left. -/
def Call.redacted : Call → Call
  | init bits => .init bits
  | initWithKey key bits => .initWithKey (Bytes.redacted key) bits
  | initFromSaved => .initFromSaved
  | update data => .update (Bytes.redacted data)
  | updateBits data bitCount => .updateBits (Bytes.redacted data) bitCount
  | finish out => .finish (Bytes.redacted out)

/-- What may be seen of a context. -/
structure Visible where
  /-- The tweak of the next block. -/
  tweak : Tweak
  /-- The number of pending bytes. -/
  numPending : Nat
  /-- Where the context stands, with its output length. -/
  phase : Phase
  /-- The output length of the saved keyed state. -/
  savedBits : Option Nat
deriving DecidableEq

/-- The visible part of a context. -/
def visible {s : StateSize} (ctx : Context s) : Visible where
  tweak := ctx.state.tweak
  numPending := ctx.state.numPending
  phase := ctx.phase
  savedBits := ctx.savedBits

/-- Two replies, with the contexts afterwards, that look the same. -/
structure LookSame {s : StateSize} (first second : Reply × Context s) : Prop where
  outcome_eq : first.1.outcome = second.1.outcome
  visible_eq : first.2.visible = second.2.visible
  outputBits_eq : first.2.outputBits = second.2.outputBits
  outputLen_eq : first.2.outputLen = second.2.outputLen
  describe_eq : first.2.describe = second.2.describe

/-- Of a buffer of `len` bytes, the first `n` are written, whatever they were, and the others keep
    their values. -/
def Overwrites (fill : Bytes → Bytes) (len n : Nat) : Prop :=
  n ≤ len ∧ ∃ written : Bytes, written.length = n ∧
    ∀ out, out.length = len → fill out = written ++ out.drop n

end Context

/-- A call on an incremental MAC of which only the lengths of byte strings are left. -/
def Mac.Call.redacted : Mac.Call → Mac.Call
  | init (.keyed key bits) => .init (.keyed (Bytes.redacted key) bits)
  | init .reuse => .init .reuse
  | update data => .update (Bytes.redacted data)
  | updateBits data bitCount => .updateBits (Bytes.redacted data) bitCount
  | finish out => .finish (Bytes.redacted out)

end SkeinHash
