import SkeinHash.Description

/-!
# Errors

A call fails because a parameter is out of range (`ParameterError`), because it comes out of order
(`SequenceError`), or, in the reader of known answers, because a buffer cannot be had
(`AllocationFailure`). Calls with more than one kind of cause return a `Failure`. Where nothing
about the cause may be told, the error is `Unspecified`.

Each error has a message and a description.
-/

namespace SkeinHash

/-! ## Causes -/

/-- A parameter was refused. -/
inductive ParameterError where
  /-- A state size other than 256, 512 or 1024 bits. -/
  | stateSize
  /-- An output length of zero bits. -/
  | outputBits
  /-- A bit count larger than the input it describes. -/
  | bitCount
  /-- An output buffer shorter than the output. -/
  | outputTooSmall
  /-- A key or block that is not exactly one block long. -/
  | blockLen
deriving DecidableEq

/-- A call came out of order. -/
inductive SequenceError where
  /-- Input or output before any initialisation. -/
  | notInitialized
  /-- Input or output after the output, without a new initialisation. -/
  | alreadyFinalized
  /-- A restart from a keyed state when none has been saved. -/
  | noSavedKeyState
  /-- Input after a partial byte, which ends a message. -/
  | partialByteNotLast
deriving DecidableEq

/-- A buffer of `requested` bytes could not be reserved. -/
structure AllocationFailure where
  /-- The number of bytes asked for. -/
  requested : Nat
deriving DecidableEq

/-- Any failure of a call that can fail for more than one kind of cause. -/
inductive Failure where
  | parameter (cause : ParameterError)
  | sequence (cause : SequenceError)
  | allocation (cause : AllocationFailure)
deriving DecidableEq

/-- A failure that tells nothing of its cause. -/
inductive Unspecified where
  | unspecified
deriving DecidableEq

/-! ## Messages -/

/-- The name of the refused parameter. -/
def ParameterError.message : ParameterError → String
  | stateSize => "StateSize"
  | outputBits => "HashBitLen"
  | bitCount => "BitCount"
  | outputTooSmall => "OutputTooSmall"
  | blockLen => "BlockLen"

/-- The name of the broken rule. -/
def SequenceError.message : SequenceError → String
  | notInitialized => "NotInitialized"
  | alreadyFinalized => "AlreadyFinalized"
  | noSavedKeyState => "NoSavedKeyState"
  | partialByteNotLast => "PartialByteNotLast"

/-- The failure with the number of bytes asked for. -/
def AllocationFailure.message (e : AllocationFailure) : String :=
  "AllocationFailure(" ++ toString e.requested ++ ")"

/-- A failure has the message of its cause. -/
def Failure.message : Failure → String
  | parameter cause => cause.message
  | sequence cause => cause.message
  | allocation cause => cause.message

/-- The one message of a failure without details. -/
def Unspecified.message : Unspecified → String
  | unspecified => "skein::error::Unspecified"

/-! ## Descriptions -/

/-- A refused parameter, by name. -/
def ParameterError.describe (e : ParameterError) : Description :=
  .tuple "InvalidParameter" [.text e.message.toList]

/-- A broken rule, by name. -/
def SequenceError.describe (e : SequenceError) : Description :=
  .tuple "SequenceError" [.text e.message.toList]

/-- A failed reservation and its size. -/
def AllocationFailure.describe (e : AllocationFailure) : Description :=
  .record "AllocationFailure" [("requested", .number e.requested)] false

/-- A failure wraps the description of its cause. -/
def Failure.describe : Failure → Description
  | parameter cause => .tuple "InvalidParameter" [cause.describe]
  | sequence cause => .tuple "Sequence" [cause.describe]
  | allocation cause => .tuple "AllocationFailure" [cause.describe]

/-- A failure without details, by its name. -/
def Unspecified.describe : Unspecified → Description
  | unspecified => .atom "Unspecified"

/-! ## Forgetting details -/

/-- Forgets why a call failed. -/
def Failure.forget (_ : Failure) : Unspecified := .unspecified

/-- Forgets which parameter was refused. -/
def ParameterError.forget (_ : ParameterError) : Unspecified := .unspecified

/-- Forgets which rule was broken. -/
def SequenceError.forget (_ : SequenceError) : Unspecified := .unspecified

end SkeinHash
