/-!
# Lines of a text

A line ends at a line feed, and one carriage return before the line feed belongs to the ending. The
last line may lack its ending; then a carriage return at its end is part of the line. A text that
ends with a line feed has no further, empty line.

* `lines_append_lf`  a line with its ending is split off the front
* `lines_unended`    a text without line feeds is one line
* `lines_append`     the lines of two texts, where the first is empty or ends with a line feed
* `lines_joinLines`  lines with their endings are read back
* `lines_joinLines_append`  lines are read back also if the last one lacks its ending
-/

namespace SkeinHash.Text

/-- Puts a character before the first line. -/
def consLine (c : Char) : List (List Char) → List (List Char)
  | [] => [[c]]
  | line :: rest => (c :: line) :: rest

/-- The lines of a text, without their endings. -/
def lines : List Char → List (List Char)
  | [] => []
  | '\n' :: rest => [] :: lines rest
  | '\r' :: '\n' :: rest => [] :: lines rest
  | c :: rest => consLine c (lines rest)

/-- Removes one carriage return at the end of a line. -/
def dropReturn : List Char → List Char
  | [] => []
  | ['\r'] => []
  | c :: rest => c :: dropReturn rest

/-- How a line ends. -/
inductive Ending where
  /-- With a line feed. -/
  | lf
  /-- With a carriage return and a line feed. -/
  | crlf
deriving DecidableEq

/-- The characters of an ending. -/
def Ending.chars : Ending → List Char
  | lf => ['\n']
  | crlf => ['\r', '\n']

/-- The text of lines with their endings. -/
def joinLines (ended : List (List Char × Ending)) : List Char :=
  ended.flatMap fun (line, ending) => line ++ ending.chars

/-- Whether a line with its ending can be told apart in a text: the line has no line feed, and if a
    line feed alone ends it, the line does not end with a carriage return. -/
def Ending.Fits (ending : Ending) (line : List Char) : Prop :=
  '\n' ∉ line ∧ (ending = lf → line.getLast? ≠ some '\r')

@[simp] theorem lines_nil : lines [] = [] := rfl

@[simp] theorem lines_lf (rest : List Char) : lines ('\n' :: rest) = [] :: lines rest := rfl

@[simp] theorem lines_crlf (rest : List Char) :
    lines ('\r' :: '\n' :: rest) = [] :: lines rest := rfl

/-- A character that does not begin an ending belongs to the first line. -/
theorem lines_cons {c : Char} {rest : List Char} (lf : c ≠ '\n')
    (crlf : c = '\r' → rest.head? ≠ some '\n') :
    lines (c :: rest) = consLine c (lines rest) := by
  rw [lines]
  · exact lf
  · rintro tail rfl rfl
    exact crlf rfl rfl

theorem consLine_ne_nil (c : Char) (rest : List (List Char)) : consLine c rest ≠ [] := by
  cases rest <;> simp [consLine]

theorem lines_ne_nil {text : List Char} (h : text ≠ []) : lines text ≠ [] := by
  fun_cases lines text with
  | case1 => exact absurd rfl h
  | case2 => simp
  | case3 => simp
  | case4 => exact consLine_ne_nil _ _

/-- A line with its ending is split off the front. -/
theorem lines_append_lf {line : List Char} (h : '\n' ∉ line) (rest : List Char) :
    lines (line ++ '\n' :: rest) = dropReturn line :: lines rest := by
  fun_induction dropReturn line with
  | case1 => simp
  | case2 => simp
  | case3 c tail notReturn ih =>
    simp only [List.mem_cons, not_or] at h
    rw [List.cons_append, lines_cons (Ne.symm h.1), ih h.2, consLine]
    -- A carriage return here is no ending, since no line feed comes next.
    rintro rfl
    cases tail with
    | nil => exact absurd rfl (notReturn rfl)
    | cons d tail => simpa using fun e => h.2 (by simp [e])

/-- Without a carriage return at its end a line stays as it is. -/
theorem dropReturn_of_getLast? {line : List Char} (h : line.getLast? ≠ some '\r') :
    dropReturn line = line := by
  fun_induction dropReturn line with
  | case1 => rfl
  | case2 => simp at h
  | case3 c tail notReturn ih =>
    cases tail with
    | nil => rfl
    | cons d tail => rw [ih (by simpa [List.getLast?_cons_cons] using h)]

/-- Only one carriage return is removed. -/
theorem dropReturn_append_return (line : List Char) : dropReturn (line ++ ['\r']) = line := by
  induction line with
  | nil => rfl
  | cons c tail ih =>
    rw [List.cons_append, dropReturn, ih]
    intro _ h
    simp at h

/-- Lines with their endings are read back. -/
theorem lines_joinLines {ended : List (List Char × Ending)}
    (h : ∀ l ∈ ended, l.2.Fits l.1) : lines (joinLines ended) = ended.map (·.1) := by
  induction ended with
  | nil => rfl
  | cons l rest ih =>
    obtain ⟨line, ending⟩ := l
    obtain ⟨noLf, noReturn⟩ := h (line, ending) (by simp)
    have ih := ih fun l hl => h l (by simp [hl])
    simp only [joinLines, List.flatMap_cons, List.map_cons, List.append_assoc] at ih ⊢
    -- A carriage return before the line feed is dropped, one of the line stays.
    cases ending with
    | lf =>
      rw [Ending.chars, List.cons_append, List.nil_append, lines_append_lf noLf, ih,
        dropReturn_of_getLast? (noReturn rfl)]
    | crlf =>
      rw [Ending.chars, List.cons_append, List.append_cons, List.cons_append, List.nil_append,
        lines_append_lf (by simpa using noLf), ih, dropReturn_append_return]

/-- A text without line feeds is one line. -/
theorem lines_unended {text : List Char} (h : '\n' ∉ text) (ne : text ≠ []) :
    lines text = [text] := by
  induction text with
  | nil => exact absurd rfl ne
  | cons c tail ih =>
    simp only [List.mem_cons, not_or] at h
    -- The last character makes the line, and those before it are put in front one by one.
    cases tail with
    | nil => rw [lines_cons (Ne.symm h.1) (by simp)]; rfl
    | cons d tail =>
      rw [lines_cons (Ne.symm h.1) (by simpa using fun _ e => h.2 (by simp [e])), ih h.2 (by simp)]
      rfl

/-- The lines of two texts, the first of which ends with a line feed. -/
theorem lines_append_of_getLast? {first : List Char} (h : first.getLast? = some '\n')
    (second : List Char) : lines (first ++ second) = lines first ++ lines second := by
  -- In the second and third case a line ends, and nothing behind it can be joined to it.
  fun_induction lines first with
  | case1 => simp at h
  | case2 rest ih =>
    cases rest with
    | nil => simp
    | cons d rest => simpa using ih (by simpa [List.getLast?_cons_cons] using h)
  | case3 rest ih =>
    cases rest with
    | nil => simp
    | cons d rest => simpa using ih (by simpa [List.getLast?_cons_cons] using h)
  | case4 c rest lf crlf ih =>
    have lf' : c ≠ '\n' := lf
    cases rest with
    | nil => simp [lf'] at h
    | cons d rest =>
      rw [List.cons_append, lines_cons lf', ih (by simpa [List.getLast?_cons_cons] using h)]
      · -- The first line of the rest is one of the first text, since this goes on.
        cases hl : lines (d :: rest) with
        | nil => exact absurd hl (lines_ne_nil (by simp))
        | cons line tail => rfl
      · rintro rfl e
        simp only [List.cons_append, List.head?_cons, Option.some.injEq] at e
        exact crlf rest rfl (by rw [e])

/-- The lines of two texts, the first of which is empty or ends with a line feed. -/
theorem lines_append {first : List Char} (h : first = [] ∨ first.getLast? = some '\n')
    (second : List Char) : lines (first ++ second) = lines first ++ lines second := by
  rcases h with rfl | h
  · rfl
  · exact lines_append_of_getLast? h second

/-- After lines with their endings a text ends with a line feed. -/
theorem joinLines_end (ended : List (List Char × Ending)) :
    joinLines ended = [] ∨ (joinLines ended).getLast? = some '\n' := by
  rcases List.eq_nil_or_concat ended with rfl | ⟨init, ⟨line, ending⟩, rfl⟩
  · exact .inl rfl
  · refine .inr ?_
    cases ending <;> simp [joinLines, Ending.chars, List.getLast?_append]

/-- Lines are read back also if the last one lacks its ending. -/
theorem lines_joinLines_append {ended : List (List Char × Ending)} {last : List Char}
    (h : ∀ l ∈ ended, l.2.Fits l.1) (hlast : '\n' ∉ last) :
    lines (joinLines ended ++ last) = ended.map (·.1) ++ if last = [] then [] else [last] := by
  rw [lines_append (joinLines_end ended), lines_joinLines h]
  split
  · simp_all
  · rw [lines_unended hlast ‹_›]

end SkeinHash.Text
