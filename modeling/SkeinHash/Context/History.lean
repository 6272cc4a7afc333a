import SkeinHash.Bits
import SkeinHash.Context.Call

/-!
# What a context has been asked for

The output of a context hangs only on a key, an output length and a message. `History` collects them
from the calls that succeeded: the last initialisation gives the key and the length, and every call
for input appends its bits to the message. A job can be replayed on a fresh context, in three calls.
-/

namespace SkeinHash.Context

/-- What an output is made from. -/
structure Job where
  /-- The key, empty if there is none. -/
  key : Bytes
  /-- The output length in bits. -/
  bits : Nat
  /-- The message. -/
  message : Bits
deriving DecidableEq

/-- What the calls that succeeded have asked for. -/
structure History where
  /-- The job since the last initialisation. -/
  current : Option Job
  /-- The key and the output length of the last keyed initialisation. -/
  saved : Option (Bytes × Nat)
deriving DecidableEq

namespace History

/-- Nothing has been asked for. -/
def new : History := ⟨none, none⟩

/-- Appends bits to the message. -/
def append (h : History) (bits : Bits) : History :=
  { h with current := h.current.map fun job => { job with message := job.message ++ bits } }

/-- Takes note of a call that succeeded. -/
def record (h : History) : Call → History
  | .init bits => { h with current := some ⟨[], bits, []⟩ }
  | .initWithKey key bits => ⟨some ⟨key, bits, []⟩, some (key, bits)⟩
  | .initFromSaved => { h with current := h.saved.map fun (key, bits) => ⟨key, bits, []⟩ }
  | .update data => h.append (Bits.ofBytes data)
  | .updateBits data bitCount => h.append (Bits.leading data bitCount)
  | .finish _ => h

/-- Takes note of calls, each with its reply. -/
def recordAll (h : History) : List (Call × Reply) → History
  | [] => h
  | (call, reply) :: rest => (if reply.succeeded then h.record call else h).recordAll rest

end History

/-- The calls that do a job on a fresh context, into a given buffer. -/
def Job.calls (job : Job) (out : Bytes) : List Call :=
  [.initWithKey job.key job.bits, .updateBits job.message.pack job.message.length, .finish out]

end SkeinHash.Context
