import SkeinHash.Digest
import SkeinHash.SecretComparison

/-!
# Message authentication codes

The hash is keyed natively: the key has a pass of its own before the configuration. A `Mac.Key`
holds the state after these two passes, from which every message starts.

- `Mac.sign`, `Mac.verify`: in one go
- `Mac.Signing`: piece by piece
-/

namespace SkeinHash

/-- Where key bytes come from: how the source is shown, and the bytes it gives on request. -/
structure ByteSource where
  /-- How the source is shown. -/
  description : Description
  /-- Fills a buffer of the given length. -/
  fill : Nat → Except Unspecified Bytes

namespace Mac

/-! ## Keys and tags -/

/-- A key, ready for any number of messages. -/
structure Key where
  /-- The state from which every message starts. -/
  prototype : DigestContext

/-- A tag. -/
structure Tag where
  /-- The tag as a digest. -/
  digest : Digest
deriving DecidableEq

namespace Key

/-- The key with the given bytes, which may have any length. -/
def ofBytes (a : Algorithm) (bytes : Bytes) : Key := ⟨.withKey a bytes⟩

/-- A key of one block from a source of bytes. -/
def generate (a : Algorithm) (source : ByteSource) : Except Unspecified Key :=
  (source.fill a.blockLen).map (ofBytes a)

/-- The algorithm of the key. -/
def algorithm (k : Key) : Algorithm := k.prototype.algorithm

/-- Shows the algorithm; the key stays hidden. -/
def describe (k : Key) : Description :=
  .record "Key" [("algorithm", .atom k.algorithm.name)] false

end Key

/-- The bytes of a tag. -/
def Tag.value (t : Tag) : Bytes := t.digest.value

/-- Shows the digest. -/
def Tag.describe (t : Tag) : Description := .tuple "Tag" [t.digest.describe]

/-! ## Signing -/

/-- A tag in the making. -/
structure Signing where
  /-- The message so far. -/
  inner : DigestContext

namespace Signing

/-- Starts a message. -/
def new (k : Key) : Signing := ⟨k.prototype⟩

/-- Takes in `data`. -/
def update (ctx : Signing) (data : Bytes) : Signing := ⟨ctx.inner.update data⟩

/-- Gives the tag. -/
def finish (ctx : Signing) : Tag := ⟨ctx.inner.finish⟩

/-- Shows the algorithm. -/
def describe (ctx : Signing) : Description :=
  .record "Context" [("algorithm", .atom ctx.inner.algorithm.name)] false

end Signing

/-- The tag of `data`. -/
def sign (k : Key) (data : Bytes) : Tag := ((Signing.new k).update data).finish

/-- Whether `tag` is the tag of `data`. -/
def verify (k : Key) (data tag : Bytes) : Except Unspecified Unit :=
  verifyEqual (sign k data).value tag

end Mac

end SkeinHash
