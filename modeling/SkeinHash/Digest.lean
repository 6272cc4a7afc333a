import SkeinHash.Algorithm
import SkeinHash.Text.Hex
import SkeinHash.Ubi

/-!
# Digests

Hashing with one of the fixed algorithms, in one go or piece by piece. The calls cannot come out of
order here: finishing gives up the context.
-/

namespace SkeinHash

/-- The result of an algorithm. -/
structure Digest where
  /-- The algorithm that gave it. -/
  algorithm : Algorithm
  /-- The output bytes. -/
  value : Bytes
deriving DecidableEq

/-- Shows the algorithm and the bytes in hexadecimal. -/
def Digest.describe (d : Digest) : Description :=
  .atom (d.algorithm.name ++ ":" ++ String.ofList (Text.Hex.encode d.value))

/-- A digest in the making. -/
structure DigestContext where
  /-- The algorithm. -/
  algorithm : Algorithm
  /-- The state of the iteration. -/
  state : Ubi algorithm.size (Block algorithm.size)

namespace DigestContext

/-- Starts a message under a key. An empty key is no key. -/
def withKey (a : Algorithm) (key : Bytes) : DigestContext :=
  let c := Compression.threefish a.size
  ⟨a, (Ubi.new c).init c key a.outputBits⟩

/-- Starts a message. -/
def new (a : Algorithm) : DigestContext := withKey a []

/-- Takes in `data`. -/
def update (ctx : DigestContext) (data : Bytes) : DigestContext :=
  { ctx with state := ctx.state.absorb (.threefish _) data }

/-- Gives the digest. -/
def finish (ctx : DigestContext) : Digest where
  algorithm := ctx.algorithm
  value := (ctx.state.finish (.threefish _) ctx.algorithm.outputBits).1

/-- Shows the algorithm; the state stays hidden. -/
def describe (ctx : DigestContext) : Description :=
  .record "Context" [("algorithm", .atom ctx.algorithm.name)] true

end DigestContext

/-- The digest of `data`. -/
def digest (a : Algorithm) (data : Bytes) : Digest := ((DigestContext.new a).update data).finish

end SkeinHash
