import SkeinHash.Bytes

/-!
# Fixed buffers

A buffer of fixed length that is overwritten piece by piece: what a write does not reach keeps its
old value.

- `Buffer.write`: writes bytes from a position on
- `Buffer.clearFrom`: zeros the rest from a position on
-/

namespace SkeinHash

/-- A buffer of `n` bytes. -/
abbrev Buffer (n : Nat) := Vector UInt8 n

namespace Buffer

variable {n : Nat}

/-- The buffer of zeros. -/
def zero (n : Nat) : Buffer n := Vector.replicate n 0

/-- Writes `data` from position `start` on. Nothing is written beyond the end. -/
def write (b : Buffer n) (start : Nat) : Bytes → Buffer n
  | [] => b
  | x :: data => write (b.setIfInBounds start x) (start + 1) data

/-- Zeros the bytes from position `start` on. -/
def clearFrom (b : Buffer n) (start : Nat) : Buffer n :=
  b.mapIdx fun i x => if i < start then x else 0

/-- Changes the byte at a position. -/
def modify (b : Buffer n) (i : Nat) (f : UInt8 → UInt8) : Buffer n :=
  b.mapIdx fun j x => if j = i then f x else x

/-- After a write, a byte is the written one or the old one. -/
theorem getElem_write (b : Buffer n) (start : Nat) (data : Bytes) (i : Nat) (hi : i < n) :
    (b.write start data)[i] =
      if start ≤ i then data[i - start]?.getD b[i] else b[i] := by
  induction data generalizing b start with
  | nil => simp [write]
  | cons x data ih =>
    rw [write, ih, Vector.getElem_setIfInBounds hi]
    -- The first byte is written before, at or behind the position that is looked at.
    rcases Nat.lt_trichotomy i start with h | rfl | h
    · simp [show ¬ start + 1 ≤ i by omega, show ¬ start ≤ i by omega, show start ≠ i by omega]
    · simp [show ¬ i + 1 ≤ i by omega]
    · have hs : i - start = i - (start + 1) + 1 := by omega
      simp [show start + 1 ≤ i by omega, show start ≤ i by omega, show start ≠ i by omega, hs]

@[simp] theorem getElem_clearFrom (b : Buffer n) (start i : Nat) (hi : i < n) :
    (b.clearFrom start)[i] = if i < start then b[i] else 0 := by
  simp [clearFrom]

@[simp] theorem getElem_modify (b : Buffer n) (j : Nat) (f : UInt8 → UInt8) (i : Nat)
    (hi : i < n) : (b.modify j f)[i] = if i = j then f b[i] else b[i] := by
  simp [modify]

end Buffer

end SkeinHash
