import SkeinHash.Threefish.Cipher

/-!
# The word-permuting form of Threefish

The cipher as its designers state it: every round mixes neighbouring words and then moves all words
by a fixed permutation. Subkeys are given by their formulas from the key and tweak words alone.

The in-place form of `Threefish.encrypt` is to give the same blocks.
-/

namespace SkeinHash.Threefish

variable {s : StateSize}

/-! ## Subkeys -/

/-- Where each word comes from when the words are moved. -/
def permutation : (s : StateSize) → Vector Nat s.words
  | .skein256 => (#v[0, 3, 2, 1] : Vector Nat 4)
  | .skein512 => (#v[2, 1, 4, 7, 6, 5, 0, 3] : Vector Nat 8)
  | .skein1024 => (#v[0, 9, 2, 13, 6, 11, 4, 15, 10, 7, 12, 3, 14, 5, 8, 1] : Vector Nat 16)

/-- A change of the key or the tweak. -/
inductive Change (s : StateSize) where
  | key (words : Block s)
  | tweak (t₀ t₁ : UInt64)

/-- Applies a change to a cipher. -/
def change (c : Threefish s) : Change s → Threefish s
  | .key words => c.setKey words
  | .tweak t₀ t₁ => c.setTweak t₀ t₁

/-- The key and the tweak words that are current after a change. -/
def Change.after (current : Block s × UInt64 × UInt64) : Change s → Block s × UInt64 × UInt64
  | key words => (words, current.2)
  | tweak t₀ t₁ => (current.1, t₀, t₁)

end SkeinHash.Threefish
