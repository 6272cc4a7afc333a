import SkeinHash.Mac
import SkeinHash.Proofs.HashPasses
import Mathlib.Data.List.TakeDrop

/-!
# One tag is accepted

The comparison of secrets looks at every byte and collects the differences by a bitwise or. No
difference can take another one back, so the collection is zero only for equal strings. For every
key and message there is thus one byte string that verification accepts.

- `collected_eq_zero_iff`: what the collection of differences says
- `verifyEqual_eq`: the comparison is equality
- `verify_accepts_one_tag`: the byte string that is accepted, and some that are not
-/

namespace SkeinHash

/-! ## Comparison -/

/-- The collection of differences is zero if it began with zero and there is no difference. -/
theorem collected_eq_zero_iff {a b : Bytes} (hlen : a.length = b.length) (before : UInt8) :
    (a.zip b).foldl (fun acc (x, y) => acc ||| (x ^^^ y)) before = 0 ↔ before = 0 ∧ a = b := by
  -- For every collection so far, since each byte adds to what the bytes before it left.
  induction a generalizing b before with
  | nil =>
    obtain rfl : b = [] := List.length_eq_zero_iff.1 hlen.symm
    simp
  | cons x a ih =>
    cases b with
    | nil => simp at hlen
    | cons y b =>
      have htail : a.length = b.length := by simpa using hlen
      rw [List.zip_cons_cons, List.foldl_cons, ih htail]
      simp only [UInt8.or_eq_zero_iff, UInt8.xor_eq_zero_iff, List.cons.injEq, and_assoc]

/-- The comparison is equality. -/
theorem verifyEqual_eq (a b : Bytes) :
    verifyEqual a b = if a = b then .ok () else .error .unspecified := by
  unfold verifyEqual
  by_cases hlen : a.length = b.length
  · have hzero := collected_eq_zero_iff hlen 0
    simp only [true_and] at hzero
    simp only [hlen, ne_eq, not_true_eq_false, if_false, hzero]
  · -- Strings of different lengths are told apart before any byte is looked at.
    have hne : a ≠ b := fun h => hlen (congrArg List.length h)
    simp only [hlen, ne_eq, not_false_eq_true, if_true, if_neg hne]

/-- The comparison accepts equal strings only. -/
theorem verifyEqual_eq_ok_iff {a b : Bytes} : verifyEqual a b = .ok () ↔ a = b := by
  rw [verifyEqual_eq]
  split <;> simp_all

namespace Mac

/-! ## Verification -/

theorem length_sign (k : Key) (message : Bytes) :
    (sign k message).value.length = k.algorithm.outputLen :=
  Ubi.length_finish _ _

/-- A byte string is itself with some bits flipped if none of its bits is flipped. -/
theorem eq_flipped_iff {tag : Bytes} {flips : Nat → UInt8} :
    tag = tag.mapIdx (fun i b => b ^^^ flips i) ↔ ∀ i < tag.length, flips i = 0 := by
  have hbyte (b flip : UInt8) : b = b ^^^ flip ↔ flip = 0 := by
    calc b = b ^^^ flip ↔ b ^^^ 0 = b ^^^ flip := by rw [UInt8.xor_zero]
      _ ↔ flip = 0 := (UInt8.xor_right_inj b).trans eq_comm
  -- Flipping bits keeps the length, so the bytes can be compared one by one.
  rw [List.ext_getElem_iff]
  simp only [List.length_mapIdx, List.getElem_mapIdx, hbyte, true_and]
  exact ⟨fun h i hi => h i hi hi, fun h i hi _ => h i hi⟩

/-- **One tag is accepted.** For every key and message, verification accepts the tag that signing
    gives, all its bytes and no more, and refuses every other byte string: a beginning of the tag
    that lacks a byte, the tag with more behind it, and the tag with bits flipped anywhere. All of
    this holds as the comparison of secrets is equality. -/
theorem verify_accepts_one_tag (k : Key) (message : Bytes) :
    let tag := (sign k message).value
    tag.length = k.algorithm.outputLen ∧
    (∀ t, verify k message t = if tag = t then .ok () else .error .unspecified) ∧
    (∀ n, verify k message (tag.take n) = .ok () ↔ k.algorithm.outputLen ≤ n) ∧
    (∀ more, verify k message (tag ++ more) = .ok () ↔ more = []) ∧
    (∀ flips : Nat → UInt8, verify k message (tag.mapIdx fun i b => b ^^^ flips i) = .ok () ↔
      ∀ i < k.algorithm.outputLen, flips i = 0) ∧
    ∀ a b, verifyEqual a b = .ok () ↔ a = b := by
  intro tag
  have hlen : tag.length = k.algorithm.outputLen := length_sign k message
  have haccepts (t : Bytes) : verify k message t = .ok () ↔ tag = t := verifyEqual_eq_ok_iff
  -- A changed tag is accepted just if the change changes nothing.
  refine ⟨hlen, verifyEqual_eq tag, fun n => ?_, fun more => ?_, fun flips => ?_, fun a b => ?_⟩
  · rw [haccepts, List.take_self_eq_iff, hlen]
  · rw [haccepts, List.self_eq_append_right]
  · rw [haccepts, eq_flipped_iff, hlen]
  · exact verifyEqual_eq_ok_iff

end Mac

end SkeinHash
