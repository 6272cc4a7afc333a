/-!
# Blank characters

The 25 characters with the Unicode property White_Space, and trimming by them.

* `trim_append`         white space at both ends does not matter
* `exists_trim`         what trimming removes is white space
* `trimRight_append_cons`  nothing is removed before a character that is no white space
-/

namespace SkeinHash.Text

/-- The characters with the Unicode property White_Space. -/
def blanks : List Char :=
  ['\u0009', '\u000a', '\u000b', '\u000c', '\u000d', '\u0020', '\u0085', '\u00a0', '\u1680',
   '\u2000', '\u2001', '\u2002', '\u2003', '\u2004', '\u2005', '\u2006', '\u2007', '\u2008',
   '\u2009', '\u200a', '\u2028', '\u2029', '\u202f', '\u205f', '\u3000']

/-- Whether a character is white space. -/
def isBlank (c : Char) : Bool := blanks.contains c

/-- Removes leading white space. -/
def trimLeft (text : List Char) : List Char := text.dropWhile isBlank

/-- Removes trailing white space. -/
def trimRight (text : List Char) : List Char := (trimLeft text.reverse).reverse

/-- Removes white space at both ends. -/
def trim (text : List Char) : List Char := trimRight (trimLeft text)

example : blanks.length = 25 := rfl

/-- White space at the front does not matter. -/
theorem trimLeft_append {lead : List Char} (h : ∀ c ∈ lead, isBlank c = true)
    (text : List Char) : trimLeft (lead ++ text) = trimLeft text :=
  List.dropWhile_append_of_pos h

theorem trimRight_append (text : List Char) {trail : List Char}
    (h : ∀ c ∈ trail, isBlank c = true) : trimRight (text ++ trail) = trimRight text := by
  rw [trimRight, List.reverse_append, trimLeft_append (by simpa using h), trimRight]

/-- Nothing is removed from the front of a text that does not begin with white space. -/
theorem trimLeft_eq_self {text : List Char} (h : ∀ c, text.head? = some c → isBlank c = false) :
    trimLeft text = text := by
  cases text with
  | nil => rfl
  | cons c rest => simp [trimLeft, h c rfl]

theorem trimRight_eq_self {text : List Char}
    (h : ∀ c, text.getLast? = some c → isBlank c = false) : trimRight text = text := by
  rw [trimRight, trimLeft_eq_self (by simpa [List.head?_reverse] using h), List.reverse_reverse]

/-- A text between two characters that are no white space stays as it is. -/
theorem trim_eq_self {text : List Char} {c d : Char} (hfirst : text.head? = some c)
    (hc : isBlank c = false) (hlast : text.getLast? = some d) (hd : isBlank d = false) :
    trim text = text := by
  rw [trim, trimLeft_eq_self (by simp [hfirst, hc]), trimRight_eq_self (by simp [hlast, hd])]

/-- White space at both ends does not matter. -/
theorem trim_append {lead text trail : List Char} (hlead : ∀ c ∈ lead, isBlank c = true)
    (hne : text ≠ []) (htext : ∀ c ∈ text, isBlank c = false)
    (htrail : ∀ c ∈ trail, isBlank c = true) : trim (lead ++ text ++ trail) = text := by
  -- What stands behind the text is not reached from the front.
  have hfirst : trimLeft (text ++ trail) = text ++ trail := by
    cases text with
    | nil => exact absurd rfl hne
    | cons c rest => simp [trimLeft, htext c]
  rw [trim, List.append_assoc, trimLeft_append hlead, hfirst, trimRight_append _ htrail,
    trimRight_eq_self fun c hc => htext c (List.mem_of_getLast? hc)]

/-- What is removed from the front is white space. -/
theorem exists_trimLeft (text : List Char) :
    ∃ lead, text = lead ++ trimLeft text ∧ ∀ c ∈ lead, isBlank c = true :=
  ⟨text.takeWhile isBlank, List.takeWhile_append_dropWhile.symm,
    fun _ hc => List.all_eq_true.1 List.all_takeWhile _ hc⟩

theorem exists_trimRight (text : List Char) :
    ∃ trail, text = trimRight text ++ trail ∧ ∀ c ∈ trail, isBlank c = true := by
  -- From the end, that is from the front of the reversed text.
  obtain ⟨lead, htext, hlead⟩ := exists_trimLeft text.reverse
  refine ⟨lead.reverse, ?_, by simpa using hlead⟩
  rw [trimRight, ← List.reverse_append, ← htext, List.reverse_reverse]

/-- What trimming removes is white space. -/
theorem exists_trim (text : List Char) :
    ∃ lead trail, text = lead ++ trim text ++ trail ∧
      (∀ c ∈ lead, isBlank c = true) ∧ ∀ c ∈ trail, isBlank c = true := by
  obtain ⟨lead, hlead, leadBlank⟩ := exists_trimLeft text
  obtain ⟨trail, htrail, trailBlank⟩ := exists_trimRight (trimLeft text)
  refine ⟨lead, trail, ?_, leadBlank, trailBlank⟩
  rw [trim, List.append_assoc, ← htrail, ← hlead]

/-- No white space is left at the end. -/
theorem not_isBlank_of_getLast?_trimRight {text : List Char} {c : Char}
    (h : (trimRight text).getLast? = some c) : isBlank c = false := by
  rw [trimRight, List.getLast?_reverse, trimLeft] at h
  simpa [h] using List.head?_dropWhile_not isBlank text.reverse

/-- Nothing is removed before a character that is no white space. -/
theorem trimRight_append_cons (front : List Char) {c : Char} (h : isBlank c = false)
    (text : List Char) : trimRight (front ++ c :: text) = front ++ c :: trimRight text := by
  obtain ⟨trail, htext, htrail⟩ := exists_trimRight text
  have hsplit : front ++ c :: text = (front ++ c :: trimRight text) ++ trail := by
    rw [List.append_assoc, List.cons_append, ← htext]
  rw [hsplit, trimRight_append _ htrail, trimRight_eq_self]
  intro d hd
  rw [List.getLast?_append, List.getLast?_cons, Option.some_or, Option.some.injEq] at hd
  subst hd
  -- The character is the last one that stays, or another one is behind it.
  cases hlast : (trimRight text).getLast? with
  | none => exact h
  | some e => exact not_isBlank_of_getLast?_trimRight hlast

end SkeinHash.Text
