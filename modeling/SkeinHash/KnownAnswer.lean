import SkeinHash.Context

/-!
# Known answers

A known answer is a message, possibly with a key, and the output that hashing it gives. It is
checked by a context of its own.
-/

namespace SkeinHash

/-- A message and its output. -/
structure KnownAnswer where
  /-- The number of its header line. -/
  line : Nat
  /-- The state size. -/
  size : StateSize
  /-- The output length in bits. -/
  outputBits : Nat
  /-- The message length in bits. -/
  messageBits : Nat
  /-- The message. Bits of the last byte past its length mean nothing. -/
  message : Bytes
  /-- The key, if there is one. -/
  key : Option Bytes
  /-- The output. -/
  result : Bytes
  /-- Whether the output comes from hashing in tree mode, which a context cannot do. -/
  isTree : Bool
deriving DecidableEq

namespace KnownAnswer

/-- Starts the message. -/
def start (v : KnownAnswer) : Except ParameterError Unit × Context v.size :=
  match v.key with
  | some key => (Context.new v.size).initWithKey key v.outputBits
  | none => (Context.new v.size).init v.outputBits

/-- The output that a context gives for the message, in a buffer as long as the stated one. -/
def compute (v : KnownAnswer) : Except Failure Bytes :=
  match v.start with
  | (.error e, _) => .error (.parameter e)
  | (.ok (), ctx) =>
    match ctx.updateBits v.message v.messageBits with
    | (.error e, _) => .error e
    | (.ok (), ctx) =>
      match ctx.finish (List.replicate v.result.length 0) with
      | (.error e, _) => .error e
      | (.ok (), out, _) => .ok out

/-- Compares the stated output with the computed one. -/
def check (v : KnownAnswer) : Except Unspecified Unit :=
  match v.compute with
  | .error e => .error e.forget
  | .ok out => if out = v.result then .ok () else .error .unspecified

end KnownAnswer

end SkeinHash
