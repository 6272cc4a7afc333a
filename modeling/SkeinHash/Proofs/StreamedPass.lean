import SkeinHash.Proofs.PassProgress

/-!
# Streamed passes

A pass may take in its input in pieces of any size and may end inside a byte. Whatever the state it
starts from and wherever the pieces are cut, it ends with the chaining value of the block-by-block
pass over the whole input.

- `InPass`: the state of a pass between two calls
- `InPass.absorb`, `InPass.foldl_absorb`, `InPass.endInput`: input in pieces, and its end
- `finishPass_slices`: the chaining value at the end, as a chain of compressions
-/

namespace SkeinHash.Ubi

open Blockwise

variable {s : StateSize} {σ : Type} {c : Compression s σ} {g : σ} {t : BlockType}

/-! ## The end of an input -/

/-- Ends the input with a partial byte of `v` bits; without one, `v` is zero. -/
def endInput (u : Ubi s σ) (v : Nat) : Ubi s σ := if v = 0 then u else u.padPartialByte v

/-- The bytes of an input that ends with a partial byte of `v` bits: the last byte is padded. -/
def Blockwise.endInput (data : Bytes) (v : Nat) : Bytes := if v = 0 then data else padLast data v

/-- The end of an input adds no byte to it. -/
theorem length_endInput (data : Bytes) (v : Nat) :
    (Blockwise.endInput data v).length = data.length := by
  unfold Blockwise.endInput
  split
  · rfl
  · exact length_padLast data v

/-- Input that is counted in bits is input, followed by its end. -/
theorem absorbBits_eq (u : Ubi s σ) (data : Bytes) (bitCount : Nat) :
    u.absorbBits c data bitCount = (u.absorb c data).endInput (bitCount % 8) := rfl

/-! ## Between two calls -/

/-- `u` is in a pass of type `t` that started from the chaining value `g` and has taken in `data`.
    `padded` says that `data` ends inside a byte. -/
def InPass (c : Compression s σ) (u : Ubi s σ) (g : σ) (t : BlockType) (data : Bytes)
    (padded : Bool) : Prop :=
  ∃ q, Reading c u g t data padded q ∧ HeldBack u data

/-- `reading_start` with no block compressed: a started pass has taken in nothing. -/
theorem inPass_start (u : Ubi s σ) (t : BlockType) :
    InPass c (u.start t) u.chaining t [] false :=
  ⟨0, reading_start u t, fun _ => rfl⟩

namespace InPass

variable {u : Ubi s σ} {data : Bytes} {padded : Bool}

/-- Input is appended to what the pass has taken in. -/
theorem absorb (h : InPass c u g t data false) (more : Bytes) :
    InPass c (u.absorb c more) g t (data ++ more) false := by
  obtain ⟨q, hreading, hheld⟩ := h
  exact hreading.absorb more hheld

/-- Where the input is cut makes no difference. -/
theorem foldl_absorb (h : InPass c u g t data false) (slices : List Bytes) :
    InPass c (slices.foldl (Ubi.absorb c) u) g t (data ++ slices.flatten) false := by
  -- The first slice goes to the end of what has been read, and the rest follows by induction.
  induction slices generalizing u data with
  | nil => rwa [List.flatten_nil, List.append_nil]
  | cons slice slices ih =>
    rw [List.foldl_cons, List.flatten_cons, ← List.append_assoc]
    exact ih (h.absorb slice)

/-- The last byte of an input is pending whenever it is padded. -/
theorem endInput (h : InPass c u g t data false) {v : Nat} (hv : v ≤ 7)
    (hpartial : v ≠ 0 → data ≠ []) :
    InPass c (u.endInput v) g t (Blockwise.endInput data v) (v ≠ 0) := by
  obtain ⟨q, hreading, hheld⟩ := h
  unfold Ubi.endInput Blockwise.endInput
  by_cases hzero : v = 0
  · rw [if_pos hzero, if_pos hzero, decide_eq_false (by omega)]
    exact ⟨q, hreading, hheld⟩
  · -- the byte to pad was held back
    have hpending : 0 < u.numPending :=
      Nat.pos_of_ne_zero fun hnone => hpartial hzero (hheld hnone)
    rw [if_neg hzero, if_neg hzero, decide_eq_true hzero]
    refine ⟨q, hreading.padPartialByte hpending (by omega) hv, fun hnone => ?_⟩
    have hsame : (u.padPartialByte v).numPending = u.numPending := by
      rw [padPartialByte, if_neg (by omega)]
    omega

/-- Input that is counted in bits is the bytes that hold them, and may end the input. -/
theorem absorbBits (h : InPass c u g t data false) {more : Bytes} {n : Nat}
    (hlen : n ≤ 8 * more.length) :
    InPass c (u.absorbBits c (more.take (byteCount n)) n) g t
      (Blockwise.endInput (data ++ more.take (byteCount n)) (n % 8)) (n % 8 ≠ 0) := by
  have hbytes : byteCount n ≤ more.length := (byteCount_le_iff _ _).mpr hlen
  rw [absorbBits_eq]
  refine (h.absorb _).endInput (by omega) fun hpartial hnil => ?_
  -- Input that ends inside a byte has that byte.
  have hzero := congrArg List.length hnil
  rw [List.length_append, List.length_take_of_le hbytes, byteCount_eq, List.length_nil] at hzero
  omega

/-- Before any input the chaining value is the one that the pass started from. -/
theorem chaining_of_nil (h : InPass c u g t [] padded) : u.chaining = g := by
  obtain ⟨q, hreading, _⟩ := h
  have hlen := hreading.length_eq
  rw [List.length_nil] at hlen
  -- A compressed block would have taken input.
  have hq : q = 0 := by
    have hB := s.blockLen_pos
    rcases Nat.eq_zero_or_pos q with hzero | hpos
    · exact hzero
    · have := Nat.mul_pos hpos hB
      omega
  rw [hreading.chaining_eq, hq]
  rfl

theorem save (h : InPass c u g t data padded) : InPass c u.save g t data padded := by
  obtain ⟨q, hreading, hheld⟩ := h
  exact ⟨q, { hreading with }, hheld⟩

/-- The end of a pass gives the block-by-block chaining value of all it has taken in. -/
theorem chaining_finishPass (h : InPass c u g t data padded) :
    (u.finishPass c).chaining = Blockwise.pass c g t data padded := by
  obtain ⟨q, hreading, hheld⟩ := h
  exact hreading.chaining_finishPass hheld

/-- The tweak tells whether the input has ended inside a byte. -/
theorem isBitPad_tweak (h : InPass c u g t data padded) : u.tweak.isBitPad = padded := by
  obtain ⟨q, hreading, _⟩ := h
  rw [hreading.tweak_eq, Tweak.isBitPad_pack _ (position_fieldsAt_lt ..)]
  rfl

end InPass

/-! ## The chain of compressions -/

/-- `g` gives the chaining values of a pass over `data`: each block is encrypted under the value
    before it and fed forward. -/
def Blockwise.IsChain (t : BlockType) (data : Bytes) (padded : Bool) (g : Nat → Block s) : Prop :=
  ∀ i < blockCount s data.length,
    let tweak := (fields s t data.length (blockCount s data.length) padded i).pack
    g (i + 1) =
      Block.xor ((Threefish.ofWords (g i) tweak.low tweak.high).encrypt (block s data i))
        (block s data i)

/-- The tweak of block `i` of a pass of `count` blocks over `len` bytes, read field by field. -/
structure Blockwise.IsTweak (s : StateSize) (t : BlockType) (len count : Nat) (padded : Bool)
    (i : Nat) (tweak : Tweak) : Prop where
  blockType_eq : tweak.blockType? = some t
  position_eq : tweak.position = min ((i + 1) * s.blockLen) len % Tweak.positionLimit
  isFirst_iff : tweak.isFirst ↔ i = 0
  isFinal_iff : tweak.isFinal ↔ i + 1 = count
  isBitPad_iff : tweak.isBitPad ↔ padded ∧ i + 1 = count

/-- The packed fields of a block are read back one by one. -/
theorem Blockwise.isTweak_pack_fields (t : BlockType) (len count : Nat) (padded : Bool) (i : Nat) :
    IsTweak s t len count padded i (fields s t len count padded i).pack where
  blockType_eq := Tweak.blockType?_pack _ (position_fields_lt ..)
  position_eq := Tweak.position_pack _ (position_fields_lt ..)
  isFirst_iff := by
    rw [Tweak.isFirst_pack _ (position_fields_lt ..)]
    exact decide_eq_true_iff
  isFinal_iff := by
    rw [Tweak.isFinal_pack _ (position_fields_lt ..)]
    exact decide_eq_true_iff
  isBitPad_iff := by
    rw [Tweak.isBitPad_pack _ (position_fields_lt ..)]
    simp [fields]

/-- The chaining values of `compressFirst` are a chain, since each is one compression more. -/
theorem Blockwise.isChain_compressFirst (start : Block s) (t : BlockType) (data : Bytes)
    (padded : Bool) :
    IsChain t data padded (compressFirst (.threefish s) start t data (blockCount s data.length)
      padded) :=
  fun _ _ => compressFirst_succ _ _ _ _

/-- **A streamed pass is the block-by-block pass over the whole input.** From any state, however the
    input is cut into slices and whether it ends on a byte boundary or with a partial byte of `v`
    bits, the chaining value at the end is the last one of the chain of compressions. -/
theorem finishPass_slices (u : Ubi s (Block s)) (t : BlockType) (slices : List Bytes) (v : Nat)
    (hv : v ≤ 7) (hpartial : v ≠ 0 → slices.flatten ≠ []) :
    let c := Compression.threefish s
    let data := Blockwise.endInput slices.flatten v
    let count := blockCount s slices.flatten.length
    (∃ g : Nat → Block s, g 0 = u.chaining ∧ IsChain t data (v ≠ 0) g ∧
      (((slices.foldl (absorb c) (u.start t)).endInput v).finishPass c).chaining = g count) ∧
    ∀ i, IsTweak s t slices.flatten.length count (v ≠ 0) i
      (fields s t data.length count (v ≠ 0) i).pack := by
  intro c data count
  -- Padding does not change the length, so the blocks are those of the slices.
  have hlen : data.length = slices.flatten.length := length_endInput _ v
  have hstart : InPass c (u.start t) u.chaining t [] false := inPass_start u t
  have hpass := ((hstart.foldl_absorb slices).endInput hv hpartial).chaining_finishPass
  -- `compressFirst` gives the chain. Its last value is what the pass ends with, whatever is in
  -- `u`.
  refine ⟨⟨compressFirst c u.chaining t data (blockCount s data.length) (v ≠ 0), rfl,
    isChain_compressFirst _ _ _ _, ?_⟩, fun i => ?_⟩
  · change _ = compressFirst c u.chaining t data _ _ (blockCount s slices.flatten.length)
    rw [← hlen]
    exact hpass
  · rw [hlen]
    exact isTweak_pack_fields _ _ _ _ _

/-- A pass whose second block is one partial byte of three bits, in a state that has bytes pending
    from before. -/
theorem finishPass_slices_partial_byte :
    let c := Compression.threefish .skein256
    let u : Ubi .skein256 (Block .skein256) :=
      { Ubi.new c with
        pending := Vector.replicate StateSize.skein256.blockLen 0xaa
        numPending := 5 }
    let slices : List Bytes := [List.replicate 32 0x61, [], [0xff]]
    (3 ≤ 7 ∧ (3 ≠ 0 → slices.flatten ≠ [])) ∧
    ∃ g : Nat → Block .skein256, g 0 = Block.zero .skein256 ∧
      IsChain .message (List.replicate 32 0x61 ++ [0xf0]) true g ∧
      (((slices.foldl (absorb c) (u.start .message)).padPartialByte 3).finishPass c).chaining =
        g 2 := by
  intro c u slices
  have hnonempty : 3 ≠ 0 → slices.flatten ≠ [] := by decide
  -- Of the last byte three bits stay, the fourth is set, and the others are cleared: `0xf0`.
  have hdata : Blockwise.endInput slices.flatten 3 = List.replicate 32 0x61 ++ [0xf0] := by decide
  have hcount : blockCount .skein256 slices.flatten.length = 2 := by decide
  obtain ⟨g, hstart, hchain, hend⟩ :=
    (finishPass_slices u .message slices 3 (by decide) hnonempty).1
  rw [hdata] at hchain
  rw [hcount] at hend
  exact ⟨⟨by decide, hnonempty⟩, g, hstart, hchain, hend⟩

end SkeinHash.Ubi
