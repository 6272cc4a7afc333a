/-!
# Cutting texts at fixed parts

A text is cut behind a given beginning, before a given end, or around the first place where a given
separator stands. The three main statements say what the parts are:

* `afterStart?_eq_some_iff`
* `beforeEnd?_eq_some_iff`
* `splitFirst?_eq_some`
* `splitFirst?_append`
-/

namespace SkeinHash.Text

/-- What follows `start` in a text that begins with it. -/
def afterStart? : List Char → List Char → Option (List Char)
  | [], text => some text
  | _ :: _, [] => none
  | c :: start, d :: text => if c = d then afterStart? start text else none

/-- What precedes `ending` in a text that ends with it. -/
def beforeEnd? (ending text : List Char) : Option (List Char) :=
  (afterStart? ending.reverse text.reverse).map List.reverse

/-- What stands before and after the first occurrence of `separator`. -/
def splitFirst? (separator : List Char) : List Char → Option (List Char × List Char)
  | [] => (afterStart? separator []).map fun after => ([], after)
  | c :: rest =>
    match afterStart? separator (c :: rest) with
    | some after => some ([], after)
    | none => (splitFirst? separator rest).map fun (before, after) => (c :: before, after)

/-- A text begins with `start` if `start` and something make up the text. -/
theorem afterStart?_eq_some_iff {start text rest : List Char} :
    afterStart? start text = some rest ↔ text = start ++ rest := by
  fun_induction afterStart? start text with
  | case1 text => simp [eq_comm]
  | case2 => simp
  | case3 start d text ih => simp [ih]
  | case4 c start d text h => simp [Ne.symm h]

@[simp] theorem afterStart?_append (start rest : List Char) :
    afterStart? start (start ++ rest) = some rest := afterStart?_eq_some_iff.2 rfl

/-- A text ends with `ending` if something and `ending` make up the text. -/
theorem beforeEnd?_eq_some_iff {ending text rest : List Char} :
    beforeEnd? ending text = some rest ↔ text = rest ++ ending := by
  simp only [beforeEnd?, Option.map_eq_some_iff, afterStart?_eq_some_iff]
  constructor
  · rintro ⟨r, h, rfl⟩
    simpa using congrArg List.reverse h
  · rintro rfl
    exact ⟨rest.reverse, by simp⟩

/-- Something precedes an ending if it is a suffix. -/
theorem isSome_beforeEnd?_iff {ending text : List Char} :
    (beforeEnd? ending text).isSome = true ↔ ending <:+ text := by
  rw [Option.isSome_iff_exists]
  simp only [beforeEnd?_eq_some_iff]
  exact exists_congr fun _ => eq_comm

/-- The parts of a split make up the text, with the separator between them. -/
theorem splitFirst?_eq_some {separator text before after : List Char}
    (h : splitFirst? separator text = some (before, after)) :
    text = before ++ separator ++ after := by
  -- The separator starts at the end of the text, at its front, or further behind.
  fun_induction splitFirst? separator text generalizing before after with
  | case1 =>
    obtain ⟨_, h', h⟩ := Option.map_eq_some_iff.1 h
    cases h
    simpa using afterStart?_eq_some_iff.1 h'
  | case2 c rest _ h' =>
    cases h
    simpa using afterStart?_eq_some_iff.1 h'
  | case3 c rest _ ih =>
    obtain ⟨⟨_, _⟩, h', h⟩ := Option.map_eq_some_iff.1 h
    cases h
    simp [ih h']

/-- A text is split at its separator when the separator starts nowhere in the part before it. -/
theorem splitFirst?_append {separator before after : List Char}
    (h : ∀ tail, tail ≠ [] → tail <:+ before →
      afterStart? separator (tail ++ separator ++ after) = none) :
    splitFirst? separator (before ++ separator ++ after) = some (before, after) := by
  induction before with
  | nil =>
    have hstart := afterStart?_append separator after
    rw [List.nil_append]
    -- Only here the text may be empty, if all of its parts are.
    cases htext : separator ++ after with
    | nil =>
      rw [htext] at hstart
      simp [splitFirst?, hstart]
    | cons c rest =>
      rw [htext] at hstart
      simp [splitFirst?, hstart]
  | cons c rest ih =>
    have hfirst := h (c :: rest) (by simp) List.suffix_rfl
    have hrest := ih fun tail ne hsuffix => h tail ne (hsuffix.trans (List.suffix_cons c rest))
    rw [List.cons_append, List.cons_append] at hfirst ⊢
    rw [splitFirst?, hfirst]
    exact congrArg (Option.map _) hrest

/-- In particular, when the first character of the separator does not stand before it. -/
theorem splitFirst?_append_of_not_mem {c : Char} {separator before : List Char} (h : c ∉ before)
    (after : List Char) :
    splitFirst? (c :: separator) (before ++ c :: separator ++ after) = some (before, after) := by
  refine splitFirst?_append fun tail ne hsuffix => ?_
  cases tail with
  | nil => exact absurd rfl ne
  | cons d tail =>
    have hne : c ≠ d := fun e => h (hsuffix.subset (by simp [e]))
    simp [afterStart?, hne]

end SkeinHash.Text
