import SkeinHash.StateSize

/-!
# Round constants

For each block size: the number of rounds, the rotation amounts, which repeat every eight rounds,
and the word pairs that a round mixes, which repeat every four.

The pairs are positions in a state whose words stay where they are. Moving every word after every
round comes to the same, because the permutation of the words has period four in every size: the
subkeys, added every four rounds, then meet the words in their natural order.
-/

namespace SkeinHash.Threefish

/-- The constants of the rounds on blocks of `n` words. -/
structure Rounds (n : Nat) where
  /-- The number of rounds. -/
  count : Nat
  /-- Rotation amounts: row `d % 8` serves round `d`, one entry a pair. -/
  rotations : Vector (Vector Nat (n / 2)) 8
  /-- Word pairs: row `d % 4` serves round `d`. -/
  pairs : Vector (Vector (Fin n × Fin n) (n / 2)) 4

/-- The rounds on blocks of 4 words. -/
def rounds256 : Rounds 4 where
  count := 72
  rotations := #v[
    #v[14, 16],
    #v[52, 57],
    #v[23, 40],
    #v[5, 37],
    #v[25, 33],
    #v[46, 12],
    #v[58, 22],
    #v[32, 32]]
  pairs := #v[
    #v[(0, 1), (2, 3)],
    #v[(0, 3), (2, 1)],
    #v[(0, 1), (2, 3)],
    #v[(0, 3), (2, 1)]]

/-- The rounds on blocks of 8 words. -/
def rounds512 : Rounds 8 where
  count := 72
  rotations := #v[
    #v[46, 36, 19, 37],
    #v[33, 27, 14, 42],
    #v[17, 49, 36, 39],
    #v[44, 9, 54, 56],
    #v[39, 30, 34, 24],
    #v[13, 50, 10, 17],
    #v[25, 29, 39, 43],
    #v[8, 35, 56, 22]]
  pairs := #v[
    #v[(0, 1), (2, 3), (4, 5), (6, 7)],
    #v[(2, 1), (4, 7), (6, 5), (0, 3)],
    #v[(4, 1), (6, 3), (0, 5), (2, 7)],
    #v[(6, 1), (0, 7), (2, 5), (4, 3)]]

/-- The rounds on blocks of 16 words. -/
def rounds1024 : Rounds 16 where
  count := 80
  rotations := #v[
    #v[24, 13, 8, 47, 8, 17, 22, 37],
    #v[38, 19, 10, 55, 49, 18, 23, 52],
    #v[33, 4, 51, 13, 34, 41, 59, 17],
    #v[5, 20, 48, 41, 47, 28, 16, 25],
    #v[41, 9, 37, 31, 12, 47, 44, 30],
    #v[16, 34, 56, 51, 4, 53, 42, 41],
    #v[31, 44, 47, 46, 19, 42, 44, 25],
    #v[9, 48, 35, 52, 23, 31, 37, 20]]
  pairs := #v[
    #v[(0, 1), (2, 3), (4, 5), (6, 7), (8, 9), (10, 11), (12, 13), (14, 15)],
    #v[(0, 9), (2, 13), (6, 11), (4, 15), (10, 7), (12, 3), (14, 5), (8, 1)],
    #v[(0, 7), (2, 5), (4, 3), (6, 1), (12, 15), (14, 13), (8, 11), (10, 9)],
    #v[(0, 15), (2, 11), (6, 13), (4, 9), (14, 1), (8, 5), (10, 3), (12, 7)]]

/-- The rounds of each block size. -/
def rounds : (s : StateSize) → Rounds s.words
  | .skein256 => rounds256
  | .skein512 => rounds512
  | .skein1024 => rounds1024

/-- What is said of a block width that the cipher does not have. -/
def unsupportedWidth : String := "Threefish is only defined for 4, 8, or 16 words"

/-- The rounds for blocks of a given number of words. -/
def roundsForWords (n : Nat) : Except String ((s : StateSize) × Rounds s.words) :=
  match StateSize.ofWords? n with
  | some s => .ok ⟨s, rounds s⟩
  | none => .error unsupportedWidth

end SkeinHash.Threefish
