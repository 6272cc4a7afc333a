import SkeinHash.Context.Call

/-!
# The life of a context

Which calls succeed hangs on four things only, whatever the keys and data are: the stage, the output
length, whether the message has ended inside a byte, and the output length of the saved keyed state.
The machine of these four says for every call whether it fails, and with which error, and what it
changes if it does not.
-/

namespace SkeinHash.Context

/-- Where a context stands. -/
inductive Stage where
  | prepared
  | absorbing
  | finalized
deriving DecidableEq

/-- What decides about the outcome of calls. -/
structure Lifecycle where
  /-- The stage. -/
  stage : Stage
  /-- The output length in bits, from the first initialisation on. -/
  bits : Option Nat
  /-- Whether the message has ended inside a byte. -/
  padded : Bool
  /-- The output length of the saved keyed state. -/
  saved : Option Nat
deriving DecidableEq

namespace Lifecycle

/-- The life of a context begins without any length. -/
def new : Lifecycle := ⟨.prepared, none, false, none⟩

/-- Why there is no message, outside of one. -/
def stageFault? (m : Lifecycle) : Option Failure :=
  match m.stage with
  | .prepared => some (.sequence .notInitialized)
  | .absorbing => none
  | .finalized => some (.sequence .alreadyFinalized)

/-- Why input is refused, if it is. -/
def inputFault? (m : Lifecycle) : Option Failure :=
  match m.stageFault? with
  | some e => some e
  | none => if m.padded then some (.sequence .partialByteNotLast) else none

/-- The error that a call fails with, if it does. -/
def fault? (m : Lifecycle) : Call → Option Failure
  | .init bits => if bits = 0 then some (.parameter .outputBits) else none
  | .initWithKey _ bits => if bits = 0 then some (.parameter .outputBits) else none
  | .initFromSaved => if m.saved = none then some (.sequence .noSavedKeyState) else none
  | .update _ => m.inputFault?
  | .updateBits data bitCount =>
    match m.inputFault? with
    | some e => some e
    | none => if 8 * data.length < bitCount then some (.parameter .bitCount) else none
  | .finish out =>
    match m.stageFault? with
    | some e => some e
    | none =>
      if out.length < byteCount (m.bits.getD 0) then some (.parameter .outputTooSmall) else none

/-- What a call changes that does not fail. -/
def advance (m : Lifecycle) : Call → Lifecycle
  | .init bits => { m with stage := .absorbing, bits := some bits, padded := false }
  | .initWithKey _ bits =>
    { stage := .absorbing, bits := some bits, padded := false, saved := some bits }
  | .initFromSaved => { m with stage := .absorbing, bits := m.saved, padded := false }
  | .update _ => m
  | .updateBits _ bitCount => { m with padded := bitCount % 8 ≠ 0 }
  | .finish _ => { m with stage := .finalized }

/-- A call: its outcome, and the machine afterwards. -/
def step (m : Lifecycle) (call : Call) : Except Failure Unit × Lifecycle :=
  match m.fault? call with
  | some e => (.error e, m)
  | none => (.ok (), m.advance call)

/-- Calls in order: their outcomes, and the machine afterwards. -/
def run (m : Lifecycle) : List Call → List (Except Failure Unit) × Lifecycle
  | [] => ([], m)
  | call :: rest =>
    let (outcome, m) := m.step call
    let (outcomes, m) := m.run rest
    (outcome :: outcomes, m)

end Lifecycle

end SkeinHash.Context
