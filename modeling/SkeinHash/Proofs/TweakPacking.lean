import SkeinHash.Tweak.Fields
import Mathlib.Algebra.GroupWithZero.Nat

/-!
# The packed words behave as the record of fields

The high word is the union of two halves that share no bit: the part of the position that does not
fit into the low word, and the type with the flags. A step that changes one half leaves the other
alone, so each step on the packed words is the step on the fields.

- `Fields.ofNat_high`: the high word as the union of its halves
- `pack_apply`: a step on the packed words is the step on the fields
- `position_pack`, `blockType?_pack`, `isFirst_pack`, `isFinal_pack`, `isBitPad_pack`: every field
  can be read back
- `pack_inj`: the two words tell all fields
- `Fields.ofSteps`, `words_after_steps`: what some steps make of the first tweak of a pass
-/

namespace SkeinHash.Tweak

/-! ## The upper half of the high word -/

/-- The type and the flags, in their places in the high word. -/
def Fields.upperBits (t : BlockType) (first final bitPad : Bool) : UInt64 :=
  UInt64.ofNat (bitPad.toNat <<< 55 + t.code.toNat <<< 56 + first.toNat <<< 62 + final.toNat <<< 63)

open Fields

section UpperBits

variable (t : BlockType) (first final bitPad : Bool)

/-- The upper half has no bit where the position is. -/
theorem upperBits_and_positionMask : upperBits t first final bitPad &&& positionMask = 0 := by
  -- Eight types and three flags: 64 words, each of which is checked.
  cases t <;> revert first final bitPad <;> decide

/-- Clearing the position leaves the upper half. -/
theorem upperBits_and_not_positionMask :
    upperBits t first final bitPad &&& ~~~positionMask = upperBits t first final bitPad := by
  cases t <;> revert first final bitPad <;> decide

/-- Clearing the first flag is the step on the fields. -/
theorem upperBits_and_not_firstFlag :
    upperBits t first final bitPad &&& ~~~firstFlag = upperBits t false final bitPad := by
  cases t <;> revert first final bitPad <;> decide

/-- Setting one of the other flags is the step on the fields. -/
theorem upperBits_or_finalFlag :
    upperBits t first final bitPad ||| finalFlag = upperBits t first true bitPad := by
  cases t <;> revert first final bitPad <;> decide

theorem upperBits_or_bitPadFlag :
    upperBits t first final bitPad ||| bitPadFlag = upperBits t first final true := by
  cases t <;> revert first final bitPad <;> decide

/-- The type is read back from its place. -/
theorem ofCode?_upperBits :
    BlockType.ofCode? ((upperBits t first final bitPad &&& typeMask) >>> typeShift) = some t := by
  cases t <;> revert first final bitPad <;> decide

/-- Each flag is read back from its place. -/
theorem upperBits_and_firstFlag : (upperBits t first final bitPad &&& firstFlag != 0) = first := by
  cases t <;> revert first final bitPad <;> decide

theorem upperBits_and_finalFlag : (upperBits t first final bitPad &&& finalFlag != 0) = final := by
  cases t <;> revert first final bitPad <;> decide

theorem upperBits_and_bitPadFlag :
    (upperBits t first final bitPad &&& bitPadFlag != 0) = bitPad := by
  cases t <;> revert first final bitPad <;> decide

end UpperBits

/-! ## The position in the high word -/

/-- The part of a position that the high word holds. -/
def Fields.carryBits (position : Nat) : UInt64 := UInt64.ofNat (position / UInt64.size)

/-- The part of a position that the high word holds has at most 32 bits. -/
theorem carry_lt {p : Nat} (hp : p < positionLimit) : p / UInt64.size < 1 <<< 32 :=
  Nat.div_lt_of_lt_mul (show p < UInt64.size * (1 <<< 32) from hp)

/-- So the mask for the position keeps all of it. -/
theorem carryBits_and_positionMask {p : Nat} (hp : p < positionLimit) :
    carryBits p &&& positionMask = carryBits p := by
  have hcarry : p / UInt64.size < 2 ^ 32 := carry_lt hp
  -- The mask is 32 ones, so it takes the remainder modulo 2 to the 32.
  have hmask : positionMask = UInt64.ofNat (2 ^ 32 - 1) := rfl
  unfold carryBits
  rw [hmask, ← UInt64.ofNat_and, Nat.and_two_pow_sub_one_eq_mod, Nat.mod_eq_of_lt hcarry]

/-- A mask for the upper half sees nothing of the position. -/
theorem carryBits_and {p : Nat} (hp : p < positionLimit) {mask : UInt64}
    (hmask : positionMask &&& mask = 0) : carryBits p &&& mask = 0 := by
  -- The position lies under its own mask, which has nothing in common with the other.
  rw [← carryBits_and_positionMask hp, UInt64.and_assoc, hmask, UInt64.and_zero]

/-- A mask that keeps the position keeps all of it. -/
theorem carryBits_and_of_keeps {p : Nat} (hp : p < positionLimit) {mask : UInt64}
    (hmask : positionMask &&& mask = positionMask) : carryBits p &&& mask = carryBits p := by
  rw [← carryBits_and_positionMask hp, UInt64.and_assoc, hmask]

/-- A mask on a union is the union of what it keeps of both. -/
private theorem or_and_distrib (a b c : UInt64) : (a ||| b) &&& c = (a &&& c) ||| (b &&& c) :=
  UInt64.toBitVec_inj.1 BitVec.and_or_distrib_right

/-- The halves do not overlap, so the sum that packs them is their union. -/
theorem Fields.ofNat_high (f : Fields) (hp : f.position < positionLimit) :
    UInt64.ofNat f.high =
      carryBits f.position ||| upperBits f.blockType f.first f.final f.bitPad := by
  have hcarry : f.position / UInt64.size < 2 ^ 32 := carry_lt hp
  -- The upper half is a multiple of 2 to the 32, and the carry is below that.
  have hupper : f.bitPad.toNat <<< 55 + f.blockType.code.toNat <<< 56 + f.first.toNat <<< 62 +
      f.final.toNat <<< 63 = 2 ^ 32 * (f.bitPad.toNat * 2 ^ 23 + f.blockType.code.toNat * 2 ^ 24 +
        f.first.toNat * 2 ^ 30 + f.final.toNat * 2 ^ 31) := by
    simp only [Nat.shiftLeft_eq]
    omega
  unfold carryBits upperBits high
  rw [← UInt64.ofNat_or, hupper, Nat.or_comm, ← Nat.two_pow_add_eq_or_of_lt hcarry, ← hupper]
  refine congrArg UInt64.ofNat ?_
  omega

/-- `ofNat_high` for the packed word. -/
theorem high_pack (f : Fields) (hp : f.position < positionLimit) :
    f.pack.high = carryBits f.position ||| upperBits f.blockType f.first f.final f.bitPad :=
  f.ofNat_high hp

/-- What a mask for the upper half shows of the high word. -/
theorem high_pack_and (f : Fields) (hp : f.position < positionLimit) {mask : UInt64}
    (hmask : positionMask &&& mask = 0) :
    f.pack.high &&& mask = upperBits f.blockType f.first f.final f.bitPad &&& mask := by
  rw [high_pack f hp, or_and_distrib, carryBits_and hp hmask, UInt64.zero_or]

/-! ## Reading the fields -/

/-- The position reaches into the high word, from which the mask cuts its part. -/
theorem position_pack (f : Fields) (hp : f.position < positionLimit) :
    f.pack.position = f.position := by
  have hcarry : f.pack.high &&& positionMask = carryBits f.position := by
    rw [high_pack f hp, or_and_distrib, carryBits_and_positionMask hp, upperBits_and_positionMask,
      UInt64.or_zero]
  -- The low word is the remainder modulo 2 to the 64, the high word has the quotient.
  have hlow : f.pack.low.toNat = f.position % UInt64.size :=
    UInt64.toNat_ofNat_of_lt' (Nat.mod_lt _ (by decide))
  have hhigh : (carryBits f.position).toNat = f.position / UInt64.size :=
    UInt64.toNat_ofNat_of_lt' (Nat.lt_trans (carry_lt hp) (by decide))
  unfold position
  rw [hcarry, hlow, hhigh, Nat.div_add_mod']

/-- The type is in the upper half, and the position does not reach there. -/
theorem blockType?_pack (f : Fields) (hp : f.position < positionLimit) :
    f.pack.blockType? = some f.blockType := by
  unfold blockType?
  rw [high_pack_and f hp (by decide), ofCode?_upperBits]

/-- So are the flags. -/
theorem isFirst_pack (f : Fields) (hp : f.position < positionLimit) : f.pack.isFirst = f.first := by
  unfold isFirst
  rw [high_pack_and f hp (by decide), upperBits_and_firstFlag]

theorem isFinal_pack (f : Fields) (hp : f.position < positionLimit) : f.pack.isFinal = f.final := by
  unfold isFinal
  rw [high_pack_and f hp (by decide), upperBits_and_finalFlag]

theorem isBitPad_pack (f : Fields) (hp : f.position < positionLimit) :
    f.pack.isBitPad = f.bitPad := by
  unfold isBitPad
  rw [high_pack_and f hp (by decide), upperBits_and_bitPadFlag]

/-- The two words tell every field. -/
theorem pack_inj {f f' : Fields} (hp : f.position < positionLimit)
    (hp' : f'.position < positionLimit) (h : f.pack = f'.pack) : f = f' := by
  -- Each field is read from both words, and the results are compared.
  have htype := congrArg Tweak.blockType? h
  have hposition := congrArg Tweak.position h
  have hfirst := congrArg Tweak.isFirst h
  have hfinal := congrArg Tweak.isFinal h
  have hbitPad := congrArg Tweak.isBitPad h
  rw [blockType?_pack f hp, blockType?_pack f' hp', Option.some.injEq] at htype
  rw [position_pack f hp, position_pack f' hp'] at hposition
  rw [isFirst_pack f hp, isFirst_pack f' hp'] at hfirst
  rw [isFinal_pack f hp, isFinal_pack f' hp'] at hfinal
  rw [isBitPad_pack f hp, isBitPad_pack f' hp'] at hbitPad
  cases f
  cases f'
  simp_all

/-! ## Steps -/

/-- The first tweak of a pass holds the fields of one. -/
theorem pack_new (t : BlockType) : (Fields.new t).pack = Tweak.new t := by
  cases t <;> rfl

/-- Tweaks are told apart by their two words. -/
private theorem eq_of_words {t u : Tweak} (hlow : t.low = u.low) (hhigh : t.high = u.high) :
    t = u := by
  cases t
  cases u
  simp_all

/-- The position is read from both words, moved, and put back beside the upper half. -/
theorem pack_addPosition (f : Fields) (len : Nat) (hp : f.position < positionLimit) :
    (f.apply (.addPosition len)).pack = f.pack.addPosition len := by
  have hnext : (f.apply (.addPosition len)).position < positionLimit := Nat.mod_lt _ (by decide)
  have hkeep : f.pack.high &&& ~~~positionMask =
      upperBits f.blockType f.first f.final f.bitPad := by
    rw [high_pack_and f hp (by decide), upperBits_and_not_positionMask]
  -- The low word takes the new position modulo 2 to the 64, the high word the rest of it.
  refine eq_of_words ?_ ?_
  · change _ = UInt64.ofNat ((f.pack.position + len) % positionLimit % UInt64.size)
    rw [position_pack f hp]
    rfl
  · calc (f.apply (.addPosition len)).pack.high
        = carryBits ((f.position + len) % positionLimit) |||
            upperBits f.blockType f.first f.final f.bitPad := high_pack _ hnext
      _ = (f.pack.high &&& ~~~positionMask) |||
            carryBits ((f.pack.position + len) % positionLimit) := by
          rw [hkeep, position_pack f hp, UInt64.or_comm]

/-- A step on a flag leaves the position and the other flags. -/
theorem pack_clearFirst (f : Fields) (hp : f.position < positionLimit) :
    (f.apply .clearFirst).pack = f.pack.clearFirst := by
  -- The low word has no flags.
  refine eq_of_words rfl ?_
  calc (f.apply .clearFirst).pack.high
      = carryBits f.position ||| upperBits f.blockType false f.final f.bitPad := high_pack _ hp
    _ = f.pack.high &&& ~~~firstFlag := by
        rw [high_pack f hp, or_and_distrib, carryBits_and_of_keeps hp (by decide),
          upperBits_and_not_firstFlag]

theorem pack_setFinal (f : Fields) (hp : f.position < positionLimit) :
    (f.apply .setFinal).pack = f.pack.setFinal := by
  refine eq_of_words rfl ?_
  calc (f.apply .setFinal).pack.high
      = carryBits f.position ||| upperBits f.blockType f.first true f.bitPad := high_pack _ hp
    _ = f.pack.high ||| finalFlag := by
        rw [high_pack f hp, UInt64.or_assoc, upperBits_or_finalFlag]

theorem pack_setBitPad (f : Fields) (hp : f.position < positionLimit) :
    (f.apply .setBitPad).pack = f.pack.setBitPad := by
  -- The flag is one bit of the upper half, which the position does not reach.
  refine eq_of_words rfl ?_
  calc (f.apply .setBitPad).pack.high
      = carryBits f.position ||| upperBits f.blockType f.first f.final true := high_pack _ hp
    _ = f.pack.high ||| bitPadFlag := by
        rw [high_pack f hp, UInt64.or_assoc, upperBits_or_bitPadFlag]

/-- A step on the packed words is the step on the fields. -/
theorem pack_apply (f : Fields) (step : Step) (hp : f.position < positionLimit) :
    (f.apply step).pack = f.pack.apply step := by
  cases step with
  | addPosition len => exact pack_addPosition f len hp
  | clearFirst => exact pack_clearFirst f hp
  | setFinal => exact pack_setFinal f hp
  | setBitPad => exact pack_setBitPad f hp

/-! ## Runs of steps -/

/-- The fields after some steps from the first tweak of a pass, told from the steps as a whole:
    whether one of them set a flag, and how many bytes they count. -/
def Fields.ofSteps (t : BlockType) (steps : List Step) : Fields where
  blockType := t
  position := (steps.map Step.counted).sum % positionLimit
  first := decide (.clearFirst ∉ steps)
  final := decide (.setFinal ∈ steps)
  bitPad := decide (.setBitPad ∈ steps)

/-- One more step, told from the steps as a whole. -/
theorem Fields.apply_ofSteps (t : BlockType) (steps : List Step) (step : Step) :
    (ofSteps t steps).apply step = ofSteps t (steps ++ [step]) := by
  -- A position adds to the sum, a flag is set if its step was made before or is made now.
  cases step with
  | addPosition len => simp [Fields.apply, ofSteps, Step.counted]
  | clearFirst | setFinal | setBitPad => simp [Fields.apply, ofSteps, Step.counted]

/-- The position is taken modulo its limit. -/
theorem Fields.position_ofSteps_lt (t : BlockType) (steps : List Step) :
    (ofSteps t steps).position < positionLimit :=
  Nat.mod_lt _ (by decide)

/-- No step has been made of the first tweak of a pass. -/
theorem Fields.ofSteps_nil (t : BlockType) : ofSteps t [] = Fields.new t := by
  simp [ofSteps, Fields.new]

/-- More steps on the packed words are more steps told as a whole. -/
theorem foldl_apply_pack_ofSteps (t : BlockType) (before steps : List Step) :
    steps.foldl Tweak.apply (ofSteps t before).pack = (ofSteps t (before ++ steps)).pack := by
  -- The position is in range after every step, so the next one acts on the fields.
  induction steps generalizing before with
  | nil => simp
  | cons step rest ih =>
    rw [List.foldl_cons, ← pack_apply _ step (position_ofSteps_lt t before), apply_ofSteps, ih,
      List.append_assoc, List.singleton_append]

/-- The words after some steps from the first tweak of a pass hold what the steps as a whole say. -/
theorem foldl_apply_new (t : BlockType) (steps : List Step) :
    steps.foldl Tweak.apply (Tweak.new t) = (ofSteps t steps).pack := by
  have hrun := foldl_apply_pack_ofSteps t [] steps
  rwa [ofSteps_nil, pack_new, List.nil_append] at hrun

/-- The flags and the type are a multiple of 2 to the 55 in the high word. -/
theorem Fields.high_eq (f : Fields) :
    f.high = f.position / UInt64.size + 2 ^ 55 * (f.bitPad.toNat + 2 * f.blockType.code.toNat +
      2 ^ 7 * f.first.toNat + 2 ^ 8 * f.final.toNat) := by
  unfold high
  simp only [Nat.shiftLeft_eq]
  omega

/-- The sum that packs the high word does not exceed a word. -/
theorem Fields.high_lt (f : Fields) (hp : f.position < positionLimit) : f.high < UInt64.size := by
  have hcarry : f.position / UInt64.size < 2 ^ 32 := carry_lt hp
  have htype : f.blockType.code.toNat < 64 := UInt64.lt_iff_toNat_lt.1 f.blockType.code_lt
  have hbitPad := f.bitPad.toNat_le
  have hfirst := f.first.toNat_le
  have hfinal := f.final.toNat_le
  show f.high < 2 ^ 64
  -- The position has 32 bits, and behind the gap stand nine more.
  rw [high_eq]
  omega

/-- So the high word is this sum. -/
theorem Fields.toNat_high_pack (f : Fields) (hp : f.position < positionLimit) :
    f.pack.high.toNat = f.high :=
  UInt64.toNat_ofNat_of_lt' (f.high_lt hp)

/-- Between the position and the bit-pad flag the high word is empty. -/
theorem Fields.high_gap (f : Fields) (hp : f.position < positionLimit) :
    f.high / 2 ^ 32 % 2 ^ 23 = 0 := by
  have hcarry : f.position / UInt64.size < 2 ^ 32 := carry_lt hp
  have hsplit : (2 : Nat) ^ 55 = 2 ^ 32 * 2 ^ 23 := by decide
  -- What is above the gap is a multiple of 2 to the 55 and drops out of the remainder.
  rw [high_eq, hsplit, Nat.mul_assoc, Nat.add_mul_div_left _ _ (by decide),
    Nat.div_eq_of_lt hcarry, Nat.zero_add, Nat.mul_mod_right]

/-- **The packed fields never disturb each other.** Whatever steps are made from the first tweak of
    a pass, and in whatever order: the position is the number of bytes counted, modulo 2 to the 96;
    the type stays; each flag says whether its step was made; and the two words are the sum of these
    fields, each in its place, with nothing in between. -/
theorem words_after_steps (t : BlockType) (steps : List Step) :
    let w := steps.foldl Tweak.apply (Tweak.new t)
    let position := (steps.map Step.counted).sum % 2 ^ 96
    let first := decide (Step.clearFirst ∉ steps)
    let final := decide (Step.setFinal ∈ steps)
    let bitPad := decide (Step.setBitPad ∈ steps)
    w.position = position ∧ w.blockType? = some t ∧
    w.isFirst = first ∧ w.isFinal = final ∧ w.isBitPad = bitPad ∧
    w.low.toNat = position % 2 ^ 64 ∧
    w.high.toNat = position / 2 ^ 64 + bitPad.toNat * 2 ^ 55 + t.code.toNat * 2 ^ 56 +
      first.toNat * 2 ^ 62 + final.toNat * 2 ^ 63 ∧
    w.high.toNat / 2 ^ 32 % 2 ^ 23 = 0 := by
  intro w position first final bitPad
  have hw : w = (ofSteps t steps).pack := foldl_apply_new t steps
  have hp : (ofSteps t steps).position < positionLimit := position_ofSteps_lt t steps
  have hhigh : w.high.toNat = (ofSteps t steps).high := by rw [hw, toNat_high_pack _ hp]
  -- Every field is read from the packed fields of all steps.
  refine ⟨?_, ?_, ?_, ?_, ?_, ?_, ?_, ?_⟩
  · rw [hw, position_pack _ hp]
    rfl
  · rw [hw, blockType?_pack _ hp]
    rfl
  · rw [hw, isFirst_pack _ hp]
    rfl
  · rw [hw, isFinal_pack _ hp]
    rfl
  · rw [hw, isBitPad_pack _ hp]
    rfl
  · rw [hw]
    exact UInt64.toNat_ofNat_of_lt' (Nat.mod_lt _ (by decide))
  · rw [hhigh]
    unfold Fields.high
    simp only [Nat.shiftLeft_eq]
    rfl
  · rw [hhigh, high_gap _ hp]

/-- Past the last position the count starts anew, and the upper half of the high word stays. -/
example : Tweak.addPosition ⟨0xffffffffffffffff, 0x70000000ffffffff⟩ 1 =
    ⟨0, 0x7000000000000000⟩ := by
  decide

end SkeinHash.Tweak
