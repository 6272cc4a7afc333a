import SkeinHash.Bytes

/-!
# Little-endian words

Every byte string that the cipher or the hash reads is a sequence of 64-bit words, least
significant byte first, on every machine.

- `wordBytes` / `ofWordBytes`: one word and its eight bytes
- `encode`: the bytes of a list of words
- `words`, `ofBytes?`: the words of a buffer whose length is eight times their number
- `writeInto`: writes words over the start of a buffer, stopping when either ends
-/

namespace SkeinHash.LittleEndian

/-! ## One word -/

/-- The `k` low-order bytes of a word, least significant first. -/
def lowBytes : Nat → UInt64 → Bytes
  | 0, _ => []
  | k + 1, w => w.toUInt8 :: lowBytes k (w >>> 8)

/-- The eight bytes of a word, least significant first. -/
def wordBytes (w : UInt64) : Bytes := lowBytes 8 w

/-- The word with the given bytes, least significant first. -/
def ofWordBytes : Bytes → UInt64
  | [] => 0
  | b :: bs => b.toUInt64 ||| (ofWordBytes bs <<< 8)

@[simp] theorem length_lowBytes (k : Nat) (w : UInt64) : (lowBytes k w).length = k := by
  induction k generalizing w with
  | zero => rfl
  | succ k ih => simp only [lowBytes, List.length_cons, ih]

@[simp] theorem length_wordBytes (w : UInt64) : (wordBytes w).length = 8 :=
  length_lowBytes 8 w

/-! ## Sequences of words -/

/-- The bytes of a list of words. -/
def encode (ws : List UInt64) : Bytes := ws.flatMap wordBytes

@[simp] theorem length_encode (ws : List UInt64) : (encode ws).length = 8 * ws.length := by
  induction ws with
  | nil => rfl
  | cons w ws ih =>
    simp only [encode, List.flatMap_cons, List.length_append, length_wordBytes,
      List.length_cons] at ih ⊢
    omega

/-- The words of a buffer of `8 * n` bytes. -/
def words {n : Nat} (buffer : Vector UInt8 (8 * n)) : Vector UInt64 n :=
  Vector.ofFn fun i : Fin n =>
    ofWordBytes (List.ofFn fun j : Fin 8 => buffer[8 * i.val + j.val])

/-- Reads exactly `n` words; any other length is refused. -/
def ofBytes? (n : Nat) (bytes : Bytes) : Option (Vector UInt64 n) :=
  if h : bytes.length = 8 * n then some (words ⟨bytes.toArray, by simpa using h⟩) else none

/-- Writes the encoding of `ws` over the start of `out` and keeps the length of `out`: what does
    not fit is dropped, in the middle of a word if need be, and what is not reached stays. -/
def writeInto (ws : List UInt64) (out : Bytes) : Bytes :=
  let encoded := encode ws
  encoded.take out.length ++ out.drop encoded.length

/-- Words are read from a buffer of the right length, and from no other. -/
theorem ofBytes?_isSome_iff (n : Nat) (bytes : Bytes) :
    (ofBytes? n bytes).isSome ↔ bytes.length = 8 * n := by
  unfold ofBytes?
  split <;> simp_all

end SkeinHash.LittleEndian
