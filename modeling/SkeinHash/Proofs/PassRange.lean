import SkeinHash.Proofs.CipherRange
import SkeinHash.RangeChecked.Calls
import Mathlib.Algebra.Group.Nat.Defs
import Mathlib.Tactic.Common

/-!
# Passes stay in range

Between two steps of a pass at most a block is pending. From there on every step passes its checks,
for input of any length that can exist, and the output fills exactly the buffer that is given for it.

- `numPending_absorb_le`, `numPending_finish_le`: the bound on the pending bytes
- `absorb?_eq`: filling up a block, whole blocks, and the rest that is held
- `padPartialByte?_eq`, `finishPass?_eq`, `pass?_eq`, `init?_eq`: the other parts of a pass
- `outputFrom?_eq`, `finish?_eq`: the output
-/

namespace SkeinHash

variable {s : StateSize}

/-! ## Pending bytes -/

namespace Ubi

variable {σ : Type} {c : Compression s σ} {u : Ubi s σ}

/-- Input that fits is held. -/
theorem absorb_of_fits {data : Bytes} (h : u.numPending + data.length ≤ s.blockLen) :
    u.absorb c data = u.hold data := by
  rw [absorb, if_pos (List.drop_eq_nil_iff.mpr (by omega))]

/-- Input that does not fit fills up the block, which is then compressed. -/
theorem absorb_of_more {data : Bytes} (hle : u.numPending ≤ s.blockLen)
    (h : s.blockLen < u.numPending + data.length) :
    u.absorb c data =
      ((u.hold (data.take (s.blockLen - u.numPending))).compressPending c s.blockLen).absorb c
        (data.drop (s.blockLen - u.numPending)) := by
  rw [absorb, if_neg]
  rw [List.drop_eq_nil_iff]
  omega

/-- Never more than a block is pending. -/
theorem numPending_absorb_le (hle : u.numPending ≤ s.blockLen) (data : Bytes) :
    (u.absorb c data).numPending ≤ s.blockLen := by
  -- What is held fits by the condition of its branch, and after a compression nothing is pending.
  induction u, data using Ubi.absorb.induct c with
  | case1 u data room =>
    rename_i hfits
    have hlen := List.drop_eq_nil_iff.mp hfits
    rw [Ubi.absorb, if_pos hfits]
    change u.numPending + data.length ≤ s.blockLen
    omega
  | case2 u data room =>
    rename_i hrest ih
    rw [Ubi.absorb, if_neg hrest]
    exact ih (Nat.zero_le _)

/-- Padding changes a pending byte and not their number. -/
theorem numPending_padPartialByte (u : Ubi s σ) (v : Nat) :
    (u.padPartialByte v).numPending = u.numPending := by
  unfold padPartialByte
  split <;> rfl

/-- Input that is counted in bits leaves at most a block pending, too. -/
theorem numPending_absorbBits_le (hle : u.numPending ≤ s.blockLen) (data : Bytes)
    (bitCount : Nat) : (u.absorbBits c data bitCount).numPending ≤ s.blockLen := by
  unfold absorbBits
  split
  · exact numPending_absorb_le hle data
  · rw [numPending_padPartialByte]
    exact numPending_absorb_le hle data

/-- The passes of the output leave at most a block pending. -/
theorem numPending_outputFrom_le (hle : u.numPending ≤ s.blockLen) (message : σ)
    (counter n : Nat) : (outputFrom c message u counter n).2.numPending ≤ s.blockLen := by
  have hB := s.blockLen_pos
  induction n using Nat.strongRecOn generalizing u counter with
  | ind n ih =>
    rw [outputFrom]
    by_cases hn : n = 0
    · rw [if_pos hn]
      exact hle
    · rw [if_neg hn]
      -- A pass leaves nothing pending.
      exact ih _ (by omega) (Nat.zero_le _) _

/-- After its output a hash has at most a block pending. -/
theorem numPending_finish_le (u : Ubi s σ) (bits : Nat) :
    (u.finish c bits).2.numPending ≤ s.blockLen :=
  numPending_outputFrom_le (u := u.finishPass c) (Nat.zero_le _) _ 0 (byteCount bits)

end Ubi

/-! ## The parts of a hash -/

namespace RangeChecked

/-- A piece that fills its place exactly can be copied. -/
theorem copy?_eq {n start stop : Nat} {b : Buffer n} {data : Bytes} (hstop : stop ≤ n)
    (hlen : start + data.length = stop) : copy? b start stop data = some (b.write start data) :=
  if_pos ⟨by omega, hstop, by omega⟩

/-- A buffer can be cleared from any position inside it on. -/
theorem clearFrom?_eq {n start : Nat} {b : Buffer n} (h : start ≤ n) :
    clearFrom? b start = some (b.clearFrom start) := if_pos h

/-- Blocks are short, so sums with their lengths stay small. -/
theorem blockLen_lt (s : StateSize) : s.blockLen < 256 := by cases s <;> decide

variable {u : Ubi s (Block s)}

/-- Compressing a block passes the checks of the cipher. -/
theorem compressPending?_eq (u : Ubi s (Block s)) (len : Nat) :
    compressPending? u len = some (u.compressPending (.threefish s) len) := by
  unfold compressPending?
  simp only [encrypt?_eq, Option.bind_eq_bind, Option.bind_some]
  rfl

/-- Input that fits is copied behind the pending bytes. -/
theorem hold?_eq {data : Bytes} (h : u.numPending + data.length ≤ s.blockLen) :
    hold? u data = some (u.hold data) := by
  have hB := blockLen_lt s
  have hsize : UInt64.size = 2 ^ 64 := rfl
  unfold hold?
  rw [add?_eq (by omega)]
  simp only [Option.bind_eq_bind, Option.bind_some, copy?_eq h rfl]
  rfl

/-- Whole blocks are compressed until at most one is left, which is then held. -/
theorem absorbBlocks?_spec (hzero : u.numPending = 0) (data : Bytes) :
    ∃ u' rest, absorbBlocks? u data = some (u', rest) ∧
      u'.numPending + rest.length ≤ s.blockLen ∧
      u'.hold rest = u.absorb (.threefish s) data := by
  -- The induction is on the loop over the blocks; nothing is pending between two of them.
  induction hn : data.length using Nat.strongRecOn generalizing u data with
  | ind n ih =>
    have hB := s.blockLen_pos
    rw [absorbBlocks?]
    by_cases hlast : data.length ≤ s.blockLen
    · rw [if_pos hlast]
      exact ⟨u, data, rfl, by omega, (Ubi.absorb_of_fits (by omega)).symm⟩
    · have htake : (data.take s.blockLen).length = s.blockLen := List.length_take_of_le (by omega)
      have hnext : u.absorb (.threefish s) data =
          ((u.hold (data.take s.blockLen)).compressPending (.threefish s) s.blockLen).absorb
            (.threefish s) (data.drop s.blockLen) := by
        rw [Ubi.absorb_of_more (by omega) (by omega), hzero, Nat.sub_zero]
      rw [if_neg hlast, splitAt?_eq (by omega)]
      simp only [Option.bind_eq_bind, Option.bind_some, copy?_eq (Nat.le_refl s.blockLen)
        (show 0 + (data.take s.blockLen).length = s.blockLen by omega), compressPending?_eq]
      have hheld : { u with pending := u.pending.write 0 (data.take s.blockLen) }.compressPending
          (.threefish s) s.blockLen =
            (u.hold (data.take s.blockLen)).compressPending (.threefish s) s.blockLen := by
        unfold Ubi.hold
        rw [hzero]
        rfl
      -- Nothing was pending, so writing the block from 0 on is what `hold` does.
      rw [hheld, hnext]
      exact ih _ (by rw [List.length_drop]; omega) rfl _ rfl

/-- A block that is pending in part is filled up, and nothing is pending then. -/
theorem fillPending?_spec {data : Bytes} (hle : u.numPending ≤ s.blockLen)
    (hmore : s.blockLen < u.numPending + data.length) :
    ∃ u' rest, fillPending? u data = some (u', rest) ∧ u'.numPending = 0 ∧
      u'.absorb (.threefish s) rest = u.absorb (.threefish s) data := by
  unfold fillPending?
  by_cases hzero : u.numPending = 0
  · rw [if_pos hzero]
    exact ⟨u, data, rfl, hzero, rfl⟩
  · have htake : (data.take (s.blockLen - u.numPending)).length = s.blockLen - u.numPending :=
      List.length_take_of_le (by omega)
    rw [if_neg hzero, sub?_eq hle]
    simp only [Option.bind_eq_bind, Option.bind_some,
      splitAt?_eq (show s.blockLen - u.numPending ≤ data.length by omega),
      copy?_eq (Nat.le_refl s.blockLen)
        (show u.numPending + (data.take (s.blockLen - u.numPending)).length = s.blockLen by omega),
      compressPending?_eq]
    -- The compressed block leaves nothing pending, and `absorb` has done just this.
    exact ⟨_, _, rfl, rfl, (Ubi.absorb_of_more hle hmore).symm⟩

/-- Input of any length that can exist passes all checks on its way into blocks. -/
theorem absorb?_eq (hle : u.numPending ≤ s.blockLen) {data : Bytes} (hlen : data.length < 2 ^ 63) :
    absorb? u data = some (u.absorb (.threefish s) data) := by
  have hB := blockLen_lt s
  have hsize : UInt64.size = 2 ^ 64 := rfl
  unfold absorb?
  rw [add?_eq (by omega)]
  simp only [Option.bind_eq_bind, Option.bind_some]
  by_cases hfits : u.numPending + data.length ≤ s.blockLen
  · rw [if_pos hfits, hold?_eq hfits, Ubi.absorb_of_fits hfits]
  · -- The three parts in turn, each of which says what is left to absorb.
    obtain ⟨u₁, rest₁, hfill, hzero, habsorb₁⟩ := fillPending?_spec hle (Nat.lt_of_not_le hfits)
    obtain ⟨u₂, rest₂, hblocks, hroom, habsorb₂⟩ := absorbBlocks?_spec hzero rest₁
    rw [if_neg hfits, hfill]
    simp only [Option.bind_some, hblocks]
    rw [hold?_eq hroom, habsorb₂, habsorb₁]

/-- A partial byte of one to seven bits is padded inside the pending bytes. -/
theorem padPartialByte?_eq (hle : u.numPending ≤ s.blockLen) {v : Nat} (hpos : 0 < v)
    (hlt : v < 8) : padPartialByte? u v = some (u.padPartialByte v) := by
  have hlen : (u.pending.toList.take u.numPending).length = u.numPending :=
    List.length_take_of_le (by rw [Vector.length_toList]; exact hle)
  have hnil : u.pending.toList.take u.numPending = [] ↔ u.numPending = 0 := by
    rw [← List.length_eq_zero_iff, hlen]
  -- The pending bytes are a part of the buffer.
  have hsplit : u.numPending ≤ u.pending.toList.length := by
    rw [Vector.length_toList]
    exact hle
  unfold padPartialByte? Ubi.padPartialByte
  simp only [guard_eq (show 0 < v ∧ v < 8 from ⟨hpos, hlt⟩), shiftRight?_eq hlt,
    splitAt?_eq hsplit, hnil, hlen, Option.bind_eq_bind, Option.bind_some, Option.pure_def]
  split_ifs <;> rfl

/-- The end of a pass clears what is behind the pending bytes and compresses the block. -/
theorem finishPass?_eq (hle : u.numPending ≤ s.blockLen) :
    finishPass? u = some (u.finishPass (.threefish s)) := by
  unfold finishPass?
  rw [clearFrom?_eq hle]
  simp only [Option.bind_eq_bind, Option.bind_some, compressPending?_eq]
  rfl

/-- A whole pass stays in range. -/
theorem pass?_eq (u : Ubi s (Block s)) (t : BlockType) {input : Bytes}
    (hlen : input.length < 2 ^ 63) : pass? u t input = some (u.pass (.threefish s) t input) := by
  unfold pass?
  -- A pass starts with nothing pending.
  rw [absorb?_eq (Nat.zero_le _) hlen]
  exact finishPass?_eq (Ubi.numPending_absorb_le (Nat.zero_le _) input)

/-- The passes over key and configuration stay in range. -/
theorem init?_eq (u : Ubi s (Block s)) {key : Bytes} (hkey : key.length < 2 ^ 63) (bits : Nat) :
    init? u key bits = some (u.init (.threefish s) key bits) := by
  have hconfig : (Config.encode bits).length < 2 ^ 63 := by
    rw [Config.length_encode]
    decide
  unfold init? Ubi.init
  -- An empty key has no pass, on either side.
  cases key with
  | nil => simp only [List.isEmpty_nil, if_true, Option.bind_eq_bind, Option.bind_some,
      pass?_eq _ _ hconfig]; rfl
  | cons b key => simp only [List.isEmpty_cons, Bool.false_eq_true, if_false, Option.bind_eq_bind,
      Option.bind_some, pass?_eq _ _ hkey, pass?_eq _ _ hconfig]; rfl

/-- Input that is counted in bits stays in range, its partial byte included. -/
theorem absorbBits?_eq (hle : u.numPending ≤ s.blockLen) {data : Bytes}
    (hlen : data.length < 2 ^ 63) (bitCount : Nat) :
    absorbBits? u data bitCount = some (u.absorbBits (.threefish s) data bitCount) := by
  unfold absorbBits? Ubi.absorbBits
  rw [absorb?_eq hle hlen]
  simp only [Option.bind_eq_bind, Option.bind_some]
  -- Where there is something to pad, the remainder is between 1 and 7.
  by_cases hwhole : bitCount % 8 = 0
  · rw [if_pos hwhole, if_pos hwhole]
    rfl
  · rw [if_neg hwhole, if_neg hwhole]
    exact padPartialByte?_eq (Ubi.numPending_absorb_le hle data) (by omega) (by omega)

/-! ## Output -/

/-- One block of output fills the buffer, or as much of it as there is. -/
theorem writeWords?_take (x : Block s) (out : Bytes) :
    writeWords? x.toList (out.take s.blockLen) =
      some ((LittleEndian.encode x.toList).take out.length) := by
  have hlen : (LittleEndian.encode x.toList).length = s.blockLen := by
    rw [LittleEndian.length_encode, Vector.length_toList, StateSize.blockLen]
  rw [writeWords?_eq, LittleEndian.writeInto, List.drop_eq_nil_of_le, List.append_nil]
  · -- Either the whole block is written or what the buffer has room for.
    rcases Nat.le_total s.blockLen out.length with h | h
    · rw [List.take_of_length_le, List.take_of_length_le (by omega)]
      rw [List.length_take_of_le h]
      omega
    · rw [List.take_of_length_le h]
  · rw [hlen]
    exact List.length_take_le _ _

/-- The loop over the counter values fills the buffer block by block and stays in range. -/
theorem outputFrom?_eq (message : Block s) (u : Ubi s (Block s)) (counter : Nat) {out : Bytes}
    (hlen : counter + out.length < UInt64.size) :
    outputFrom? message u counter out =
      some (Ubi.outputFrom (.threefish s) message u counter out.length) := by
  induction hn : out.length using Nat.strongRecOn generalizing u counter out with
  | ind n ih =>
    have hB := s.blockLen_pos
    rw [outputFrom?, Ubi.outputFrom]
    by_cases hout : out = []
    · rw [if_pos hout, if_pos (by rw [← hn, hout, List.length_nil])]
    · have hpos := List.length_pos_iff.mpr hout
      have hdrop : (out.drop s.blockLen).length = n - s.blockLen := by rw [List.length_drop, hn]
      -- The counter value is an input of eight bytes.
      have hcounter : (LittleEndian.wordBytes (UInt64.ofNat counter)).length < 2 ^ 63 := by
        rw [LittleEndian.length_wordBytes]
        decide
      rw [if_neg hout, if_neg (by omega), pass?_eq _ _ hcounter]
      simp only [Option.bind_eq_bind, Option.bind_some, writeWords?_take,
        add?_eq (show counter + 1 < UInt64.size by omega)]
      -- The buffer gets shorter with each block, so the counter cannot overflow before it is
      -- empty.
      rw [ih _ (by omega) _ _ (by omega) hdrop, hn]
      rfl

/-- The buffer is as long as the output, and the last byte is shifted by 1 to 7 places. -/
theorem finish?_eq (hle : u.numPending ≤ s.blockLen) {bits : Nat} (hbits : bits < UInt64.size)
    {out : Bytes} (hout : out.length = byteCount bits) (hlen : out.length < 2 ^ 63) :
    finish? u bits out = some (u.finish (.threefish s) bits) := by
  have hsize : UInt64.size = 2 ^ 64 := rfl
  have hcounter : 0 + out.length < UInt64.size := by omega
  have hwritten := outputFrom?_eq (u.finishPass (.threefish s)).chaining
    (u.finishPass (.threefish s)) 0 hcounter
  rw [hout] at hwritten
  unfold finish? Ubi.finish Ubi.output Bytes.maskLast
  simp only [byteCount?_eq hbits, guard_eq hout, finishPass?_eq hle, hwritten,
    Option.bind_eq_bind, Option.bind_some, Option.pure_def]
  -- Only output that ends inside a byte has a mask to shift.
  by_cases hwhole : bits % 8 = 0
  · rw [if_pos hwhole, if_pos hwhole]
  · have hused := Nat.mod_lt bits (show 8 > 0 by decide)
    rw [if_neg hwhole, if_neg hwhole, sub?_eq (Nat.le_of_lt hused)]
    simp only [Option.bind_some, shiftLeft?_eq (show 8 - bits % 8 < 8 by omega)]

end RangeChecked

end SkeinHash
