import SkeinHash.Proofs.HashPasses
import SkeinHash.Proofs.LittleEndianCodec

/-!
# The calls of a pass

A pass asks the compression function for one block after the other, and what it asks for depends on
the input only. The calls can therefore be listed before any of them is made, and the input can be
read back from the list: the blocks hold the bytes, and the last tweak tells how many of them are
input and whether the input ended inside a byte.

- `Blockwise.calls`: the tweaks and blocks of a pass
- `Blockwise.pass_eq_replay`: a pass makes these calls in order
- `Blockwise.filter_calls`: every call of a pass carries the type of the pass
- `Blockwise.calls_inj`: the input of a pass, read back from its calls
-/

namespace SkeinHash

/-! ## Making calls -/

namespace Compression

variable {s : StateSize} {σ : Type} (c : Compression s σ)

/-- Compresses blocks in order, each with its tweak. -/
def replay (g : σ) (calls : List (Tweak × Block s)) : σ :=
  calls.foldl (fun g call => c.compress g call.1 call.2) g

/-- Calls are made one part after the other. -/
theorem replay_append (g : σ) (before after : List (Tweak × Block s)) :
    c.replay g (before ++ after) = c.replay (c.replay g before) after := List.foldl_append

/-- What is written down of calls is the calls. -/
theorem record_replay (log calls : List (Tweak × Block s)) :
    (record s).replay log calls = log ++ calls := by
  -- Each call is written down behind the log so far, which the induction leaves open.
  induction calls generalizing log with
  | nil => exact (List.append_nil log).symm
  | cons call calls ih =>
    have hrest := ih (log ++ [call])
    rwa [List.append_assoc, List.singleton_append] at hrest

end Compression

namespace Ubi.Blockwise

/-! ## The calls of a pass -/

variable {s : StateSize} {σ : Type}

/-- The tweaks and blocks of a pass, in order. -/
def calls (s : StateSize) (t : BlockType) (data : Bytes) (padded : Bool) :
    List (Tweak × Block s) :=
  let count := blockCount s data.length
  (List.range count).map fun i => ((fields s t data.length count padded i).pack, block s data i)

/-- A pass makes its calls in order. -/
theorem pass_eq_replay (c : Compression s σ) (g : σ) (t : BlockType) (data : Bytes)
    (padded : Bool) : pass c g t data padded = c.replay g (calls s t data padded) := by
  unfold Compression.replay calls
  -- A fold over the mapped numbers is the fold of `compressFirst`.
  rw [List.foldl_map]
  rfl

/-- A pass makes one call a block. -/
theorem length_calls (t : BlockType) (data : Bytes) (padded : Bool) :
    (calls s t data padded).length = blockCount s data.length := by
  rw [calls, List.length_map, List.length_range]

/-- Even an empty input has a call. -/
theorem calls_ne_nil (t : BlockType) (data : Bytes) (padded : Bool) :
    calls s t data padded ≠ [] := by
  intro hnil
  have hlen := length_calls (s := s) t data padded
  rw [hnil, List.length_nil, blockCount] at hlen
  omega

/-- Every call of a pass carries the type of the pass. -/
theorem blockType?_of_mem_calls {t : BlockType} {data : Bytes} {padded : Bool}
    {call : Tweak × Block s} (h : call ∈ calls s t data padded) : call.1.blockType? = some t := by
  obtain ⟨i, _, rfl⟩ := List.mem_map.mp h
  exact Tweak.blockType?_pack _ (position_fields_lt ..)

/-- The calls that carry a type are those of the passes of this type. -/
theorem filter_calls (t t' : BlockType) (data : Bytes) (padded : Bool) :
    (calls s t data padded).filter (fun call => call.1.blockType? = some t') =
      if t = t' then calls s t data padded else [] := by
  -- All calls of a pass have the same type, so the filter keeps all of them or none.
  by_cases htype : t = t'
  · rw [if_pos htype, List.filter_eq_self]
    intro call hcall
    rw [blockType?_of_mem_calls hcall, htype, decide_eq_true rfl]
  · rw [if_neg htype, List.filter_eq_nil_iff]
    intro call hcall
    rw [decide_eq_true_eq, blockType?_of_mem_calls hcall, Option.some.injEq]
    exact htype

/-! ## Reading back the input -/

/-- All blocks but the last are full, and the last one may be. -/
theorem blockCount_bounds (s : StateSize) (len : Nat) : ∃ q, blockCount s len = q + 1 ∧
    q * s.blockLen ≤ len ∧ len ≤ q * s.blockLen + s.blockLen := by
  have hB := s.blockLen_pos
  rcases Nat.eq_zero_or_pos len with hzero | hpos
  · -- An empty input has one block that is not full.
    refine ⟨0, ?_, by omega, by omega⟩
    rw [blockCount, hzero, Nat.div_eq_of_lt (by omega)]
    rfl
  · obtain ⟨q, hq⟩ : ∃ q, (len + s.blockLen - 1) / s.blockLen = q + 1 :=
      Nat.exists_eq_add_one.mpr (Nat.div_pos (by omega) hB)
    -- The quotient rounds up, so it misses its dividend by less than a block.
    have hdiv := Nat.div_add_mod (len + s.blockLen - 1) s.blockLen
    have hmod := Nat.mod_lt (len + s.blockLen - 1) hB
    rw [hq, Nat.mul_comm, Nat.succ_mul] at hdiv
    refine ⟨q, ?_, by omega, by omega⟩
    rw [blockCount, hq]
    omega

/-- The number of blocks and the last position tell the length. -/
theorem length_eq_of_position {len len' : Nat} (hcount : blockCount s len = blockCount s len')
    (hposition : len % Tweak.positionLimit = len' % Tweak.positionLimit) : len = len' := by
  obtain ⟨q, hq, hlower, hupper⟩ := blockCount_bounds s len
  obtain ⟨q', hq', hlower', hupper'⟩ := blockCount_bounds s len'
  obtain rfl : q = q' := by omega
  -- Lengths that take the same number of blocks are so close that the position tells them apart,
  -- even where it has wrapped around.
  have hB : s.blockLen ≤ 128 := s.blockLen_le_maxBlockLen
  have hlimit : Tweak.positionLimit = 2 ^ 96 := by decide
  rw [hlimit] at hposition
  omega

/-- Call `i` has the tweak and the bytes of block `i`. -/
theorem getElem_calls (t : BlockType) (data : Bytes) (padded : Bool) {i : Nat}
    (hi : i < (calls s t data padded).length) : (calls s t data padded)[i] =
      ((fields s t data.length (blockCount s data.length) padded i).pack, block s data i) := by
  simp only [calls, List.getElem_map, List.getElem_range]

/-- Equal blocks have equal bytes, the zeros behind the end included. -/
theorem getD_eq_of_block_eq {data data' : Bytes} {i : Nat}
    (h : block s data i = block s data' i) {j : Nat} (hj : j < s.blockLen) :
    data[i * s.blockLen + j]?.getD 0 = data'[i * s.blockLen + j]?.getD 0 := by
  have hword : j < 8 * s.words := hj
  -- The words of a buffer tell its bytes, and byte `j` of this buffer is the one asked for.
  have hbyte := congrArg (·[j]?) (LittleEndian.words_inj h)
  simp only [Vector.getElem?_ofFn, dif_pos hword] at hbyte
  exact Option.some.inj hbyte

/-- Inputs of one length with the same blocks are the same. -/
theorem eq_of_blocks {data data' : Bytes} (hlen : data.length = data'.length)
    (hblocks : ∀ i < blockCount s data.length, block s data i = block s data' i) :
    data = data' := by
  have hB := s.blockLen_pos
  obtain ⟨q, hcount, _, hupper⟩ := blockCount_bounds s data.length
  apply List.ext_getElem hlen
  intro k hk hk'
  have hdiv : k / s.blockLen < q + 1 :=
    Nat.div_lt_of_lt_mul (by rw [Nat.mul_comm, Nat.succ_mul]; omega)
  have hplace : k / s.blockLen * s.blockLen + k % s.blockLen = k := Nat.div_add_mod' k s.blockLen
  -- Byte `k` stands in block `k / B` at `k % B`.
  have hbyte := getD_eq_of_block_eq (hblocks (k / s.blockLen) (by omega)) (Nat.mod_lt k hB)
  rwa [hplace, List.getElem?_eq_getElem hk, List.getElem?_eq_getElem hk', Option.getD_some,
    Option.getD_some] at hbyte

/-- The input of a pass can be read back from its calls. -/
theorem calls_inj {t : BlockType} {data data' : Bytes} {padded padded' : Bool}
    (h : calls s t data padded = calls s t data' padded') : data = data' ∧ padded = padded' := by
  have hcount : blockCount s data.length = blockCount s data'.length := by
    rw [← length_calls t data padded, h, length_calls]
  -- Equal lists agree call by call, in the tweak and in the block.
  have hcall (i : Nat) (hi : i < blockCount s data.length) :
      (fields s t data.length (blockCount s data.length) padded i).pack =
        (fields s t data'.length (blockCount s data'.length) padded' i).pack ∧
      block s data i = block s data' i := by
    have hi' : i < (calls s t data padded).length := by rwa [length_calls]
    have hpair := getElem_calls t data padded hi'
    simp only [h, getElem_calls] at hpair
    exact Prod.ext_iff.mp hpair.symm
  obtain ⟨q, hq, _, hupper⟩ := blockCount_bounds s data.length
  obtain ⟨q', hq', _, hupper'⟩ := blockCount_bounds s data'.length
  obtain rfl : q = q' := by omega
  have hsucc : (q + 1) * s.blockLen = q * s.blockLen + s.blockLen := Nat.succ_mul _ _
  -- The last tweak holds the length and the flag.
  have hlast := Tweak.pack_inj (position_fields_lt ..) (position_fields_lt ..)
    (hcall q (by omega)).1
  have hposition := congrArg Tweak.Fields.position hlast
  have hbitPad := congrArg Tweak.Fields.bitPad hlast
  simp only [fields, hsucc, Nat.min_eq_right hupper, Nat.min_eq_right hupper'] at hposition
  simp only [fields, hq, hq', decide_true, Bool.and_true] at hbitPad
  have hlen := length_eq_of_position hcount hposition
  exact ⟨eq_of_blocks hlen fun i hi => (hcall i hi).2, hbitPad⟩

end Ubi.Blockwise

end SkeinHash
