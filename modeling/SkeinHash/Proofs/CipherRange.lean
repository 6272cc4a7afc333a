import SkeinHash.Proofs.WordPairs
import SkeinHash.RangeChecked
import Mathlib.Data.Option.Basic
import Mathlib.Tactic.Common

/-!
# The cipher stays in range

With a check before every step, the cipher gives what it gives without: all positions in the key
schedule and in the tables of the rounds exist, and no piece of a buffer is of the wrong length.

- `subkeyWord?_eq`, `pairs?_mix`, `pairs?_unmix`: subkeys and rounds
- `encrypt?_eq`, `decrypt?_eq`: whole blocks
- `encryptBytes?_eq`, `decryptBytes?_eq`: buffers of any length
-/

namespace SkeinHash.RangeChecked

/-! ## Checks that pass -/

/-- Sums, differences, cuts and shifts pass their checks where their operands allow them. -/
theorem add?_eq {a b : Nat} (h : a + b < UInt64.size) : add? a b = some (a + b) := if_pos h

theorem sub?_eq {a b : Nat} (h : b ≤ a) : sub? a b = some (a - b) := if_pos h

theorem splitAt?_eq {data : Bytes} {i : Nat} (h : i ≤ data.length) :
    splitAt? data i = some (data.take i, data.drop i) := if_pos h

theorem shiftRight?_eq {x : UInt8} {r : Nat} (h : r < 8) :
    shiftRight? x r = some (x >>> UInt8.ofNat r) := if_pos h

theorem shiftLeft?_eq {x : UInt8} {r : Nat} (h : r < 8) :
    shiftLeft? x r = some (x <<< UInt8.ofNat r) := if_pos h

theorem guard_eq {p : Prop} [Decidable p] (h : p) : (guard p : Option Unit) = some () := if_pos h

/-- An eighth of a word, rounded up, is far from overflowing. -/
theorem byteCount?_eq {bits : Nat} (h : bits < UInt64.size) :
    byteCount? bits = some (byteCount bits) := by
  have hsize : UInt64.size = 2 ^ 64 := rfl
  unfold byteCount? byteCount
  -- The eighth is below 2 to the 61, and at most one is added.
  refine add?_eq ?_
  split <;> omega

/-- A loop whose steps all succeed is a fold. -/
theorem foldlM_eq_some {α β : Type} {f : β → α → Option β} {g : β → α → β} {l : List α}
    (h : ∀ a ∈ l, ∀ b, f b a = some (g b a)) (b : β) : l.foldlM f b = some (l.foldl g b) := by
  induction l generalizing b with
  | nil => rfl
  | cons a l ih =>
    -- The first step succeeds, and the rest of the loop is the induction hypothesis.
    rw [List.foldlM_cons, h a (by simp)]
    exact ih (fun a' ha' => h a' (by simp [ha'])) _

/-- A vector whose entries all exist. -/
theorem ofFnM_eq_some {α : Type} {n : Nat} {f : Fin n → Option α} {g : Fin n → α}
    (h : ∀ i, f i = some (g i)) : Vector.ofFnM f = some (Vector.ofFn g) := by
  obtain rfl : f = fun i => pure (g i) := funext h
  exact Vector.ofFnM_pure

/-- Every word is cut to the length of its piece, so all pieces can be copied. -/
theorem writeWords?_eq (ws : List UInt64) (out : Bytes) :
    writeWords? ws out = some (LittleEndian.writeInto ws out) := by
  induction ws generalizing out with
  | nil => simp [writeWords?, LittleEndian.writeInto, LittleEndian.encode]
  | cons w ws ih =>
    by_cases hout : out = []
    · simp [writeWords?, LittleEndian.writeInto, hout]
    · have hlen := LittleEndian.length_wordBytes w
      have hpiece : (out.take 8).length ≤ (LittleEndian.wordBytes w).length := by
        rw [hlen, List.length_take]
        omega
      -- The piece is as long as what is left of the buffer, and at most one word.
      have htake : (LittleEndian.wordBytes w).take (out.take 8).length =
          (LittleEndian.wordBytes w).take out.length := by
        rw [List.length_take]
        rcases Nat.le_total 8 out.length with h | h
        · rw [Nat.min_eq_left h, List.take_of_length_le (by omega), List.take_of_length_le (by omega)]
        · rw [Nat.min_eq_right h]
      have hcopy : ((LittleEndian.wordBytes w).take out.length).length = (out.take 8).length := by
        rw [← htake, List.length_take_of_le hpiece]
      -- The bytes of `w` come first, and the rest is written behind the first 8 bytes of `out`.
      simp only [writeWords?, if_neg hout, splitAt?_eq hpiece, guard_eq hcopy, ih, htake,
        Option.bind_eq_bind, Option.bind_some, Option.pure_def, LittleEndian.writeInto,
        LittleEndian.encode, List.flatMap_cons, List.take_append, List.length_append, hlen,
        List.length_drop, List.drop_drop, List.append_assoc]

section Cipher

variable {s : StateSize}

/-! ## Subkeys -/

/-- A block has the three words that a subkey adds the tweak and its number to. -/
theorem three_le_words (s : StateSize) : 3 ≤ s.words := by cases s <;> decide

/-- No block has more than 16 words. -/
theorem words_le (s : StateSize) : s.words ≤ 16 := by cases s <;> decide

/-- The last three words of a block exist, and so do the tweak words. -/
theorem subkeyWord?_eq (c : Threefish s) {d i : Nat} (h : d + i < UInt64.size)
    (hd : d + 1 < UInt64.size) : subkeyWord? c d i = some (c.subkeyWord d i) := by
  have hwords := three_le_words s
  have hfirst : c.tweak[d % 3]? = some c.tweak[d % 3] := Vector.getElem?_eq_getElem _
  have hsecond : c.tweak[(d + 1) % 3]? = some c.tweak[(d + 1) % 3] := Vector.getElem?_eq_getElem _
  -- The checked form subtracts from the number of words, the plain one adds to the position.
  have hthird : i = s.words - 3 ↔ i + 3 = s.words := by omega
  have hnext : i = s.words - 2 ↔ i + 2 = s.words := by omega
  have hlast : i = s.words - 1 ↔ i + 1 = s.words := by omega
  unfold subkeyWord? Threefish.subkeyWord
  simp only [add?_eq h, add?_eq hd, sub?_eq (show 3 ≤ s.words by omega),
    sub?_eq (show 2 ≤ s.words by omega), sub?_eq (show 1 ≤ s.words by omega), hfirst, hsecond,
    Option.bind_eq_bind, Option.bind_some, Option.pure_def, hthird, hnext, hlast]
  split_ifs <;> rfl

/-- The subkeys that the cipher has can be added without leaving a table. -/
theorem addSubkey?_eq (c : Threefish s) {d : Nat} (hd : d < 256) (x : Block s) :
    addSubkey? c d x = some (c.addSubkey d x) := by
  have hwords := words_le s
  have hsize : UInt64.size = 2 ^ 64 := rfl
  -- Every word of the subkey exists, so the vector of them does.
  have hall := ofFnM_eq_some (g := fun i : Fin s.words => x[i] + c.subkeyWord d i)
    (f := fun i => do return x[i] + (← subkeyWord? c d i)) fun i => by
      simp [subkeyWord?_eq c (i := i) (show d + i < _ by omega) (by omega)]
  exact hall.trans (congrArg some (by ext i hi; simp [Threefish.addSubkey]))

/-- They can be subtracted just so. -/
theorem subSubkey?_eq (c : Threefish s) {d : Nat} (hd : d < 256) (x : Block s) :
    subSubkey? c d x = some (c.subSubkey d x) := by
  have hwords := words_le s
  have hsize : UInt64.size = 2 ^ 64 := rfl
  have hall := ofFnM_eq_some (g := fun i : Fin s.words => x[i] - c.subkeyWord d i)
    (f := fun i => do return x[i] - (← subkeyWord? c d i)) fun i => by
      simp [subkeyWord?_eq c (i := i) (show d + i < _ by omega) (by omega)]
  exact hall.trans (congrArg some (by ext i hi; simp [Threefish.subSubkey]))

/-! ## Rounds -/

/-- A step between two positions of the block finds both of its words. -/
theorem pairAt?_eq (f : UInt64 → UInt64 → Nat → UInt64 × UInt64) (x : Block s)
    (i j : Fin s.words) (r : Nat) :
    pairAt? f x ((i.val, j.val), r) = some (Threefish.applyAt f x ((i, j), r)) := by
  -- A position that is in the block can be set with or without a check.
  have hset : ∀ (y : Block s) (k : Fin s.words) (w : UInt64),
      y.setIfInBounds k.val w = y.set k w := by
    intro y k w
    ext m hm
    simp [Vector.getElem_setIfInBounds, Vector.getElem_set]
  simp [pairAt?, Threefish.applyAt, hset]

/-- The rows of the tables exist for every round, and what they hold are positions of words. -/
theorem pairs?_eq {f : UInt64 → UInt64 → Nat → UInt64 × UInt64}
    {stepAt : Block s → (Fin s.words × Fin s.words) × Nat → Block s}
    (h : ∀ x step, pairAt? f x ((step.1.1.val, step.1.2.val), step.2) = some (stepAt x step))
    (d : Nat) (x : Block s) :
    pairs? f d x = some ((Threefish.steps s d).foldl stepAt x) := by
  have hpairs : (Threefish.rounds s).pairs[d % 4]? = some (Threefish.rounds s).pairs[d % 4] :=
    Vector.getElem?_eq_getElem _
  have hrotations : (Threefish.rounds s).rotations[d % 8]? =
      some (Threefish.rounds s).rotations[d % 8] := Vector.getElem?_eq_getElem _
  -- The rows exist, so what is left is the loop over the steps, each of which succeeds.
  have hloop := foldlM_eq_some (l := (Threefish.steps s d).toList) (fun step _ x => h x step) x
  rw [Vector.foldl_toList] at hloop
  unfold pairs?
  simp only [hpairs, hrotations, Option.bind_eq_bind, Option.bind_some, Vector.toList_map,
    List.foldlM_map]
  exact hloop

/-- A round mixes its pairs within the tables. -/
theorem pairs?_mix (d : Nat) (x : Block s) :
    pairs? Threefish.mix d x = some (Threefish.mixRound d x) :=
  pairs?_eq (fun x step => pairAt?_eq _ x step.1.1 step.1.2 step.2) d x

/-- Undoing a round stays within the same tables. -/
theorem pairs?_unmix (d : Nat) (x : Block s) :
    pairs? Threefish.unmix d x = some (Threefish.unmixRound d x) :=
  pairs?_eq (fun x step => pairAt?_eq _ x step.1.1 step.1.2 step.2) d x

/-- Every round that the cipher has stays in range. -/
theorem round?_eq (c : Threefish s) {d : Nat} (hd : d < 256) (x : Block s) :
    round? c x d = some (c.round x d) := by
  have hsize : UInt64.size = 2 ^ 64 := rfl
  unfold round? Threefish.round
  simp only [pairs?_mix, add?_eq (show d / 4 + 1 < UInt64.size by omega),
    addSubkey?_eq c (show d / 4 + 1 < 256 by omega), Option.bind_eq_bind, Option.bind_some]
  split_ifs <;> rfl

/-- So does undoing it. -/
theorem unround?_eq (c : Threefish s) {d : Nat} (hd : d < 256) (x : Block s) :
    unround? c x d = some (c.unround d x) := by
  have hsize : UInt64.size = 2 ^ 64 := rfl
  unfold unround? Threefish.unround
  simp only [add?_eq (show d / 4 + 1 < UInt64.size by omega),
    subSubkey?_eq c (show d / 4 + 1 < 256 by omega), Option.bind_eq_bind, Option.bind_some]
  split_ifs <;> exact pairs?_unmix d _

/-! ## Blocks and buffers -/

/-- There are so few rounds that their numbers stay small. -/
theorem count_lt (s : StateSize) : (Threefish.rounds s).count < 256 := by cases s <;> decide

/-- Encryption passes all of its checks, and so does decryption. -/
theorem encrypt?_eq (c : Threefish s) (block : Block s) :
    encrypt? c block = some (c.encrypt block) := by
  have hcount := count_lt s
  unfold encrypt? Threefish.encrypt
  rw [addSubkey?_eq c (by omega)]
  -- The loop runs over the numbers below the count, each of which is small enough for its subkey.
  refine foldlM_eq_some (fun d hd x => round?_eq c ?_ x) _
  have := List.mem_range.mp hd
  omega

theorem decrypt?_eq (c : Threefish s) (block : Block s) :
    decrypt? c block = some (c.decrypt block) := by
  have hcount := count_lt s
  -- Undoing goes through the rounds from the last one on.
  have hloop := foldlM_eq_some (f := unround? c) (g := fun x d => c.unround d x)
    (l := (List.range (Threefish.rounds s).count).reverse) (fun d hd x => by
      have := List.mem_range.mp (List.mem_reverse.mp hd)
      exact unround?_eq c (by omega) x) block
  rw [List.foldl_reverse] at hloop
  unfold decrypt? Threefish.decrypt
  rw [hloop]
  exact subSubkey?_eq c (by omega) _

/-- A buffer of any length is refused or overwritten within its bounds. -/
theorem onBytes?_eq {f? : Block s → Option (Block s)} {f : Block s → Block s}
    (h : ∀ x, f? x = some (f x)) (buffer : Bytes) :
    onBytes? f? buffer = some (Threefish.onBytes f buffer) := by
  unfold onBytes? Threefish.onBytes
  -- A buffer of the wrong length is refused before anything else.
  cases LittleEndian.ofBytes? s.words buffer with
  | none => rfl
  | some block => simp [h, writeWords?_eq]

/-- The same for buffers. -/
theorem encryptBytes?_eq (c : Threefish s) (buffer : Bytes) :
    encryptBytes? c buffer = some (c.encryptBytes buffer) := onBytes?_eq (encrypt?_eq c) buffer

theorem decryptBytes?_eq (c : Threefish s) (buffer : Bytes) :
    decryptBytes? c buffer = some (c.decryptBytes buffer) := onBytes?_eq (decrypt?_eq c) buffer

end Cipher

end SkeinHash.RangeChecked
