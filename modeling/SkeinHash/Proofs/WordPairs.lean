import SkeinHash.Threefish.Cipher

/-!
# Steps on pairs of words

A round of the cipher is a sequence of steps, each of which replaces two words of the block by a
function of the same two words. No two steps of a round have a position in common, so they can be
taken in any order: each of them finds the words as they were before the round.

- `applyAt`: a step that puts new words at two positions; `mixAt` and `unmixAt` are such steps
- `Independent`: steps without a common position, such as those of a round (`independent_steps`)
- `getElem_foldl_applyAt`: what a sequence of independent steps leaves at the positions of one
- `foldl_applyAt_inverse`: a sequence of independent steps is undone step by step, in the same order
-/

namespace SkeinHash.Threefish

variable {n : Nat}

/-! ## One step -/

/-- Two positions and a rotation amount. -/
abbrev Step (n : Nat) := (Fin n × Fin n) × Nat

/-- A function of two words and a rotation amount, such as `mix`. -/
abbrev PairMap := UInt64 → UInt64 → Nat → UInt64 × UInt64

/-- Replaces the words at the two positions of a step. -/
def applyAt (f : PairMap) (x : Vector UInt64 n) (step : Step n) : Vector UInt64 n :=
  let new := f x[step.1.1] x[step.1.2] step.2
  (x.set step.1.1 new.1).set step.1.2 new.2

/-- Mixing two words in place is a step, with `mix` as its function. -/
theorem mixAt_eq_applyAt (s : StateSize) : @mixAt s = applyAt mix := rfl

/-- So is undoing it, with `unmix`. -/
theorem unmixAt_eq_applyAt (s : StateSize) : @unmixAt s = applyAt unmix := rfl

/-- The second position is written last, so it is asked for first. -/
theorem getElem_applyAt (f : PairMap) (x : Vector UInt64 n) (step : Step n) (k : Fin n) :
    (applyAt f x step)[k] =
      if step.1.2 = k then (f x[step.1.1] x[step.1.2] step.2).2
      else if step.1.1 = k then (f x[step.1.1] x[step.1.2] step.2).1
      else x[k] := by
  simp only [applyAt, Fin.getElem_fin, Vector.getElem_set, Fin.val_inj]

/-- The step works at two positions, not one. -/
def Proper (step : Step n) : Prop := step.1.1 ≠ step.1.2

/-- The position is none of those of a step. -/
def Misses (step : Step n) (k : Fin n) : Prop := step.1.1 ≠ k ∧ step.1.2 ≠ k

/-- A step leaves all positions alone but its two. -/
theorem getElem_applyAt_of_misses (f : PairMap) (x : Vector UInt64 n) {step : Step n} {k : Fin n}
    (hmisses : Misses step k) : (applyAt f x step)[k] = x[k] := by
  rw [getElem_applyAt, if_neg hmisses.2, if_neg hmisses.1]

/-- At its first position a step leaves the first new word. -/
theorem getElem_applyAt_fst (f : PairMap) (x : Vector UInt64 n) {step : Step n}
    (hproper : Proper step) :
    (applyAt f x step)[step.1.1] = (f x[step.1.1] x[step.1.2] step.2).1 := by
  rw [getElem_applyAt, if_neg (Ne.symm hproper), if_pos rfl]

/-- At its second position a step leaves the second new word. -/
theorem getElem_applyAt_snd (f : PairMap) (x : Vector UInt64 n) (step : Step n) :
    (applyAt f x step)[step.1.2] = (f x[step.1.1] x[step.1.2] step.2).2 := by
  rw [getElem_applyAt, if_pos rfl]

/-- Blocks are equal if they are so at every position. -/
theorem eq_of_getElem_fin {x y : Vector UInt64 n} (h : ∀ k : Fin n, x[k] = y[k]) : x = y :=
  Vector.ext fun i hi => h ⟨i, hi⟩

/-- A function that is undone by another one is undone by it where it has been applied. -/
theorem applyAt_applyAt {f g : PairMap} (hinverse : ∀ a b r, g (f a b r).1 (f a b r).2 r = (a, b))
    (x : Vector UInt64 n) {step : Step n} (hproper : Proper step) :
    applyAt g (applyAt f x step) step = x := by
  apply eq_of_getElem_fin
  intro k
  rw [getElem_applyAt, getElem_applyAt_fst f x hproper, getElem_applyAt_snd, hinverse]
  -- The three cases of `getElem_applyAt`: the second position, the first one, and all others.
  split
  · next hsnd => rw [← hsnd]
  · split
    · next hfst => rw [← hfst]
    · next hsnd hfst => exact getElem_applyAt_of_misses f x ⟨hfst, hsnd⟩

/-! ## Steps without a common position -/

/-- The steps have no position in common. -/
def Apart (a b : Step n) : Prop := Misses a b.1.1 ∧ Misses a b.1.2

/-- Having no position in common does not depend on the order. -/
theorem Apart.symm {a b : Step n} (h : Apart a b) : Apart b a :=
  ⟨⟨h.1.1.symm, h.2.1.symm⟩, ⟨h.1.2.symm, h.2.2.symm⟩⟩

/-- Steps that have no position in common can change places. -/
theorem applyAt_comm {a b : Step n} (hapart : Apart a b) (f g : PairMap) (x : Vector UInt64 n) :
    applyAt g (applyAt f x a) b = applyAt f (applyAt g x b) a := by
  have hbfst := getElem_applyAt_of_misses f x hapart.1
  have hbsnd := getElem_applyAt_of_misses f x hapart.2
  have hafst := getElem_applyAt_of_misses g x hapart.symm.1
  have hasnd := getElem_applyAt_of_misses g x hapart.symm.2
  apply eq_of_getElem_fin
  intro k
  -- Both steps find the words of `x`; a position of one is missed by the other.
  rw [getElem_applyAt g (applyAt f x a) b k, hbfst, hbsnd, getElem_applyAt f x a k,
    getElem_applyAt f (applyAt g x b) a k, hafst, hasnd, getElem_applyAt g x b k]
  obtain ⟨⟨h11, h21⟩, ⟨h12, h22⟩⟩ := hapart
  -- What is left are the cases of `k` being one of the four positions.
  grind

/-- Steps of two different positions each, no two of which have a position in common. -/
structure Independent (steps : List (Step n)) : Prop where
  proper : ∀ step ∈ steps, Proper step
  apart : steps.Pairwise Apart

/-- Leaving out steps keeps the others independent. -/
theorem Independent.sublist {steps fewer : List (Step n)} (h : Independent steps)
    (hfewer : fewer.Sublist steps) : Independent fewer :=
  ⟨fun step hstep => h.proper step (hfewer.subset hstep), h.apart.sublist hfewer⟩

/-- So the steps behind the first are independent. -/
theorem Independent.tail {step : Step n} {rest : List (Step n)}
    (h : Independent (step :: rest)) : Independent rest :=
  h.sublist (List.sublist_cons_self step rest)

/-- The first step has no position in common with any step behind it. -/
theorem Independent.apart_of_mem {step later : Step n} {rest : List (Step n)}
    (h : Independent (step :: rest)) (hlater : later ∈ rest) : Apart step later :=
  List.rel_of_pairwise_cons h.apart hlater

/-- A step that is independent of some others can be taken before them. -/
theorem applyAt_foldl_applyAt (f g : PairMap) (x : Vector UInt64 n) {step : Step n}
    {rest : List (Step n)} (h : Independent (step :: rest)) :
    applyAt g (rest.foldl (applyAt f) x) step = rest.foldl (applyAt f) (applyAt g x step) := by
  induction rest generalizing x with
  | nil => rfl
  | cons later rest ih =>
    -- The step moves past `later` and then, by induction, past the rest.
    have hapart := h.apart_of_mem List.mem_cons_self
    have hrest : Independent (step :: rest) :=
      h.sublist ((List.sublist_cons_self later rest).cons_cons step)
    rw [List.foldl_cons, List.foldl_cons, ih _ hrest, applyAt_comm hapart.symm]

/-- Independent steps are undone in the order in which they were taken. -/
theorem foldl_applyAt_inverse {f g : PairMap}
    (hinverse : ∀ a b r, g (f a b r).1 (f a b r).2 r = (a, b)) (x : Vector UInt64 n)
    {steps : List (Step n)} (h : Independent steps) :
    steps.foldl (applyAt g) (steps.foldl (applyAt f) x) = x := by
  induction steps generalizing x with
  | nil => rfl
  | cons step rest ih =>
    -- The step to undo first was taken first, so it moves past the others.
    rw [List.foldl_cons, List.foldl_cons, applyAt_foldl_applyAt f g _ h,
      applyAt_applyAt hinverse x (h.proper step List.mem_cons_self), ih x h.tail]

/-! ## The steps of a round -/

instance (step : Step n) : Decidable (Proper step) := inferInstanceAs (Decidable (_ ≠ _))

instance (a b : Step n) : Decidable (Apart a b) :=
  inferInstanceAs (Decidable ((_ ≠ _ ∧ _ ≠ _) ∧ _ ≠ _ ∧ _ ≠ _))

/-- Rounds repeat after eight. -/
theorem steps_mod (s : StateSize) (d : Nat) : steps s (d % 8) = steps s d := by
  -- Rotations repeat every eight rounds and pairs every four, which divides eight.
  have hpairs : d % 8 % 4 = d % 4 := by omega
  have hrotations : d % 8 % 8 = d % 8 := Nat.mod_mod d 8
  simp only [steps, hpairs, hrotations]

/-- No two steps of a round have a position in common. -/
theorem independent_steps (s : StateSize) (d : Nat) : Independent (steps s d).toList := by
  -- There are eight different rounds of each size, and these are checked one by one.
  have hproper (d : Fin 8) : ∀ step ∈ (steps s d).toList, Proper step := by
    revert d
    cases s <;> decide +kernel
  have hapart (d : Fin 8) : (steps s d).toList.Pairwise Apart := by
    revert d
    cases s <;> decide +kernel
  have hd : d % 8 < 8 := Nat.mod_lt d (by decide)
  rw [← steps_mod]
  exact ⟨hproper ⟨d % 8, hd⟩, hapart ⟨d % 8, hd⟩⟩

/-- A round is the sequence of its steps. -/
theorem mixRound_eq_foldl {s : StateSize} (d : Nat) (x : Block s) :
    mixRound d x = (steps s d).toList.foldl (applyAt mix) x := by
  rw [mixRound, mixAt_eq_applyAt, Vector.foldl_toList]

/-- A round is undone by the same sequence of steps, with `unmix`. -/
theorem unmixRound_eq_foldl {s : StateSize} (d : Nat) (x : Block s) :
    unmixRound d x = (steps s d).toList.foldl (applyAt unmix) x := by
  rw [unmixRound, unmixAt_eq_applyAt, Vector.foldl_toList]

end SkeinHash.Threefish
