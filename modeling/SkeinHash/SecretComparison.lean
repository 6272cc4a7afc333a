import SkeinHash.Error
import SkeinHash.Bytes

/-!
# Comparison of secrets

Two byte strings are compared without stopping at the first difference: the differences of all
bytes are collected, and only the collection is looked at. Strings of different lengths are told
apart at once, as lengths are no secret.
-/

namespace SkeinHash

/-- Whether two byte strings are equal, without a word on where they differ. -/
def verifyEqual (a b : Bytes) : Except Unspecified Unit :=
  if a.length ≠ b.length then .error .unspecified
  else
    -- A fold has no way out before the last byte.
    let differences := (a.zip b).foldl (fun acc (x, y) => acc ||| (x ^^^ y)) (0 : UInt8)
    if differences = 0 then .ok () else .error .unspecified

end SkeinHash
