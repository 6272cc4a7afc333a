import SkeinHash.LittleEndian

/-!
# The configuration block

What the configuration pass takes in: the name of the schema, its version, and the output length.
The rest describes tree hashing and stays zero, for sequential hashing.
-/

namespace SkeinHash.Config

/-- The schema name, "SHA3" in ASCII. -/
def schema : Bytes := [0x53, 0x48, 0x41, 0x33]

/-- The version of the schema, 1, in two bytes, and two reserved bytes. -/
def version : Bytes := [1, 0, 0, 0]

/-- The three parameters of tree hashing, all absent, and the reserved bytes after them. -/
def sequential : Bytes := List.replicate 16 0

/-- The configuration for an output of `bits` bits, which takes up one word. -/
def encode (bits : Nat) : Bytes :=
  schema ++ version ++ LittleEndian.wordBytes (UInt64.ofNat bits) ++ sequential

@[simp] theorem length_encode (bits : Nat) : (encode bits).length = 32 := by
  simp [encode, schema, version, sequential]

end SkeinHash.Config
