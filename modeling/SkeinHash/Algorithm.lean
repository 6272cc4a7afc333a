import SkeinHash.Bytes
import SkeinHash.StateSize

/-!
# Algorithms with a fixed output length

The thirteen named algorithms: a state size with an output length.
-/

namespace SkeinHash

/-- A state size with an output length in bits, which is not zero. -/
structure Algorithm where
  /-- The state size. -/
  size : StateSize
  /-- The output length in bits. -/
  outputBits : Nat
  outputBits_pos : 0 < outputBits := by decide
deriving DecidableEq

namespace Algorithm

/-- 128 bits of output from a state of 256 bits. -/
def skein256_128 : Algorithm := { size := .skein256, outputBits := 128 }
/-- 160 bits of output from a state of 256 bits. -/
def skein256_160 : Algorithm := { size := .skein256, outputBits := 160 }
/-- 224 bits of output from a state of 256 bits. -/
def skein256_224 : Algorithm := { size := .skein256, outputBits := 224 }
/-- 256 bits of output from a state of 256 bits. -/
def skein256_256 : Algorithm := { size := .skein256, outputBits := 256 }
/-- 128 bits of output from a state of 512 bits. -/
def skein512_128 : Algorithm := { size := .skein512, outputBits := 128 }
/-- 160 bits of output from a state of 512 bits. -/
def skein512_160 : Algorithm := { size := .skein512, outputBits := 160 }
/-- 224 bits of output from a state of 512 bits. -/
def skein512_224 : Algorithm := { size := .skein512, outputBits := 224 }
/-- 256 bits of output from a state of 512 bits. -/
def skein512_256 : Algorithm := { size := .skein512, outputBits := 256 }
/-- 384 bits of output from a state of 512 bits. -/
def skein512_384 : Algorithm := { size := .skein512, outputBits := 384 }
/-- 512 bits of output from a state of 512 bits, the primary algorithm. -/
def skein512_512 : Algorithm := { size := .skein512, outputBits := 512 }
/-- 384 bits of output from a state of 1024 bits. -/
def skein1024_384 : Algorithm := { size := .skein1024, outputBits := 384 }
/-- 512 bits of output from a state of 1024 bits. -/
def skein1024_512 : Algorithm := { size := .skein1024, outputBits := 512 }
/-- 1024 bits of output from a state of 1024 bits. -/
def skein1024_1024 : Algorithm := { size := .skein1024, outputBits := 1024 }

/-- All algorithms, by state size and output length. -/
def all : List Algorithm :=
  [skein256_128, skein256_160, skein256_224, skein256_256,
   skein512_128, skein512_160, skein512_224, skein512_256, skein512_384, skein512_512,
   skein1024_384, skein1024_512, skein1024_1024]

/-- The block length in bytes. -/
def blockLen (a : Algorithm) : Nat := a.size.blockLen

/-- The output length in bytes. -/
def outputLen (a : Algorithm) : Nat := byteCount a.outputBits

/-- The name, such as "Skein-512-256". -/
def name (a : Algorithm) : String :=
  "Skein-" ++ toString a.size.bits ++ "-" ++ toString a.outputBits

/-- The algorithm of a given name. -/
def ofName? (name : String) : Option Algorithm := all.find? fun a => a.name == name

/-- The longest output of an algorithm, in bytes. -/
def maxOutputLen : Nat := 128

/-- A buffer for the longest output is long enough for all. -/
theorem outputLen_le_maxOutputLen (a : Algorithm) (h : a ∈ all) : a.outputLen ≤ maxOutputLen := by
  revert a
  decide

end Algorithm

end SkeinHash
