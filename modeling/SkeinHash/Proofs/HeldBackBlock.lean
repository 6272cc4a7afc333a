import SkeinHash.Proofs.HashPasses

/-!
# The block that is held back

Between two calls inside a pass, all blocks of the input but the last have been compressed, and the
last one is pending, also when it is full: whether it gets the final flag, and whether its last byte
is padded, is decided only when the pass ends. None of this depends on where the input was cut.

- `Blockwise.compressedBlocks_eq`: the number of blocks that have been compressed
- `HoldsLast`: the whole state of a pass, by the number of bytes it has taken in
- `foldl_absorb_holdsLast`: any calls lead there
-/

namespace SkeinHash.Ubi

open Blockwise

variable {s : StateSize} {σ : Type} {c : Compression s σ} {g : σ} {t : BlockType}

/-! ## Blocks that more input follows -/

namespace Blockwise

/-- All blocks of an input are compressed but the last. -/
theorem compressedBlocks_eq (s : StateSize) (len : Nat) :
    compressedBlocks s len = blockCount s len - 1 := by
  have hB := s.blockLen_pos
  unfold compressedBlocks blockCount
  split
  · next hzero =>
    -- The one block of an empty input is its last.
    rw [hzero, Nat.zero_add, Nat.div_eq_of_lt (by omega)]
    omega
  · -- A block has at least one byte, so rounding up gives at least one.
    have hone : 1 ≤ (len + s.blockLen - 1) / s.blockLen := Nat.div_pos (by omega) hB
    omega

/-- What the tweak of block `i` says when the block is full and more input follows. -/
def innerFields (s : StateSize) (t : BlockType) (i : Nat) : Tweak.Fields where
  blockType := t
  position := (i + 1) * s.blockLen
  first := i = 0
  final := false
  bitPad := false

/-- A full block that is not the last has the fields of an inner one. -/
theorem fields_eq_innerFields {len count i : Nat} (hfull : (i + 1) * s.blockLen ≤ len)
    (hlen : len < Tweak.positionLimit) (hlast : i + 1 < count) :
    fields s t len count false i = innerFields s t i := by
  unfold fields innerFields
  rw [Nat.min_eq_left hfull, Nat.mod_eq_of_lt (by omega), decide_eq_false (Nat.ne_of_lt hlast)]
  rfl

end Blockwise

/-! ## The state of a pass -/

/-- `v` is in a pass of type `t` that started in `u` and has taken in `data`: `q` blocks have been
    compressed, and what is behind them is pending. -/
structure HoldsLast (c : Compression s σ) (u v : Ubi s σ) (t : BlockType) (data : Bytes) (q : Nat) :
    Prop where
  position_eq : v.tweak.position = q * s.blockLen
  numPending_eq : v.numPending = data.length - q * s.blockLen
  numPending_le : v.numPending ≤ s.blockLen
  numPending_pos : data ≠ [] → 1 ≤ v.numPending
  pending_eq : v.pending.toList.take v.numPending = data.drop (data.length - v.numPending)
  isFirst_iff : v.tweak.isFirst ↔ q = 0
  isFinal_eq : v.tweak.isFinal = false
  isBitPad_eq : v.tweak.isBitPad = false
  blockType_eq : v.tweak.blockType? = some t
  saved_eq : v.saved = u.saved
  /-- The chaining value is the end of a chain of `q` compressions. -/
  chaining_eq : ∃ g : Nat → σ, g 0 = u.chaining ∧ v.chaining = g q ∧
    ∀ i < q, g (i + 1) = c.compress (g i) (innerFields s t i).pack (block s data i)

/-- No input changes the saved chaining value. -/
theorem saved_foldl_absorb (u : Ubi s σ) (slices : List Bytes) :
    (slices.foldl (absorb c) u).saved = u.saved := by
  induction slices generalizing u with
  | nil => rfl
  | cons slice slices ih => rw [List.foldl_cons, ih, saved_absorb]

namespace Reading

variable {u : Ubi s σ} {data : Bytes} {padded : Bool} {q : Nat}

/-- A pass that holds back its last block has compressed all others. -/
theorem compressedBlocks_eq (h : Reading c u g t data padded q) (hheld : HeldBack u data) :
    compressedBlocks s data.length = q := by
  rw [Blockwise.compressedBlocks_eq, h.blockCount_eq hheld, Nat.add_sub_cancel]

/-- The pending bytes are the end of the input. -/
theorem take_pending (h : Reading c u g t data padded q) :
    u.pending.toList.take u.numPending = data.drop (data.length - u.numPending) := by
  have hlen := h.length_eq
  have hle := h.numPending_le
  -- What is not pending has been compressed, `q` blocks of it.
  have hstart : data.length - u.numPending = q * s.blockLen := by omega
  apply List.ext_getElem?
  intro j
  rw [hstart, List.getElem?_drop]
  rcases Nat.lt_or_ge j u.numPending with hj | hj
  · rw [List.getElem?_take_of_lt hj, Vector.getElem?_toList,
      Vector.getElem?_eq_getElem (Nat.lt_of_lt_of_le hj hle), h.pending_eq j (by omega) hj]
  · rw [List.getElem?_take_eq_none hj, List.getElem?_eq_none (by omega)]

/-- The chaining value after the blocks that more input follows. -/
theorem exists_chain (h : Reading c u g t data padded q) (hlen : data.length < Tweak.positionLimit) :
    ∃ chain : Nat → σ, chain 0 = g ∧ u.chaining = chain q ∧
      ∀ i < q, chain (i + 1) = c.compress (chain i) (innerFields s t i).pack (block s data i) := by
  refine ⟨compressFirst c g t data (q + 1) false, rfl, h.chaining_eq, fun i hi => ?_⟩
  have hinput := h.length_eq
  -- Block `i` is one of the `q` full blocks, so it ends inside the input.
  have hfull : (i + 1) * s.blockLen ≤ q * s.blockLen := Nat.mul_le_mul_right _ hi
  rw [compressFirst_succ, fields_eq_innerFields (by omega) hlen (by omega)]

end Reading

/-- **The last block of a pass in progress is held back.** From any state, after the start of a pass
    and any calls, all blocks of the input but the last are compressed and counted, and the last is
    pending, a full one too. The tweak still says that the pass may go on, and the saved chaining
    value is what it was. -/
theorem foldl_absorb_holdsLast (c : Compression s σ) (u : Ubi s σ) (t : BlockType)
    (slices : List Bytes) (hlen : slices.flatten.length < 2 ^ 96) :
    HoldsLast c u (slices.foldl (absorb c) (u.start t)) t slices.flatten
      (compressedBlocks s slices.flatten.length) := by
  -- The invariant of a pass in progress knows some number of blocks behind it; that the last block is
  -- held back says which number.
  obtain ⟨q, hreading, hheld⟩ := (inPass_start (c := c) u t).foldl_absorb slices
  rw [List.nil_append] at hreading hheld
  have hcount := hreading.compressedBlocks_eq hheld
  have hinput := hreading.length_eq
  have hlimit : slices.flatten.length < Tweak.positionLimit := hlen
  have htweak := hreading.tweak_eq
  have hfits : (fieldsAt s t q 0 false false).position < Tweak.positionLimit :=
    position_fieldsAt_lt ..
  rw [hcount]
  constructor
  case position_eq =>
    rw [htweak, Tweak.position_pack _ hfits]
    exact Nat.mod_eq_of_lt (by omega)
  case numPending_eq => omega
  case numPending_le => exact hreading.numPending_le
  case numPending_pos => exact fun hdata => Nat.pos_of_ne_zero (mt hheld hdata)
  case pending_eq => exact hreading.take_pending
  case isFirst_iff =>
    rw [htweak, Tweak.isFirst_pack _ hfits]
    exact decide_eq_true_iff
  case isFinal_eq => rw [htweak, Tweak.isFinal_pack _ hfits]; rfl
  case isBitPad_eq => rw [htweak, Tweak.isBitPad_pack _ hfits]; rfl
  case blockType_eq => rw [htweak, Tweak.blockType?_pack _ hfits]; rfl
  case saved_eq => exact saved_foldl_absorb (u.start t) slices
  case chaining_eq => exact hreading.exists_chain hlimit

/-- Three blocks in pieces that do not end with them, in a state that has bytes pending from before:
    two blocks are compressed, and the third is pending although it is full. -/
theorem foldl_absorb_holdsLast_full_block :
    let c := Compression.threefish .skein256
    let u : Ubi .skein256 (Block .skein256) :=
      { Ubi.new c with
        pending := Vector.replicate StateSize.skein256.blockLen 0xaa
        numPending := 5 }
    let slices : List Bytes :=
      [List.replicate 32 0x61, [], List.replicate 33 0x62, List.replicate 31 0x63]
    let v := slices.foldl (absorb c) (u.start .message)
    slices.flatten.length < 2 ^ 96 ∧ v.tweak.position = 64 ∧ v.tweak.isFinal = false ∧
    v.numPending = 32 ∧ v.pending.toList.take 32 = 0x62 :: List.replicate 31 0x63 := by
  intro c u slices v
  have hlen : slices.flatten.length < 2 ^ 96 := by decide
  have hinput : slices.flatten.length = 96 := by decide
  -- Of 96 bytes the last 32 are held back, though they fill a block.
  have hcount : compressedBlocks .skein256 slices.flatten.length = 2 := by decide
  have hholds := foldl_absorb_holdsLast c u .message slices hlen
  rw [hcount] at hholds
  have hpending : v.numPending = 32 := by rw [hholds.numPending_eq, hinput]; rfl
  have hbytes := hholds.pending_eq
  rw [hpending, hinput] at hbytes
  exact ⟨hlen, hholds.position_eq, hholds.isFinal_eq, hpending, hbytes⟩

end SkeinHash.Ubi
