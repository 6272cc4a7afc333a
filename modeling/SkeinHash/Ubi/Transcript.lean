import SkeinHash.Bits
import SkeinHash.Ubi

/-!
# Transcripts

What the compression function is asked for while a message is taken in: the tweak and the block of
every call, in order, through the passes over the key, the configuration and the message.

The calls do not depend on the chaining values, so recording them tells all of them.
-/

namespace SkeinHash

/-- The tweaks and blocks that are compressed for a message under a key, for an output of `bits`
    bits. -/
def transcript (s : StateSize) (key : Bytes) (bits : Nat) (message : Bits) :
    List (Tweak × Block s) :=
  let c := Compression.record s
  let u := (Ubi.new c).init c key bits
  ((u.absorbBits c message.pack message.length).finishPass c).chaining

end SkeinHash
