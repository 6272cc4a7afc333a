import SkeinHash.Proofs.ReaderMoves
import Mathlib.Data.List.Basic

/-!
# Files one behind the other

Two files of known answers, one behind the other, are read as the vectors of the first and then
those of the second: what has been read before has no effect on what comes but for the numbers of
lines. This holds of any text behind a file that can be read, also of one that cannot be read
itself: then both fail in the same way.

- `shift`, `shiftOutcome`: what is read, or an error, with some more lines before it
- `Reader.behind`: a reader that has read a file before
- `step_behind`, `readLines_behind`: one line has the same effect behind a file, and so have all
- `parse_append`: the text of two files
-/

namespace SkeinHash.KnownAnswer

/-! ## More lines before -/

/-- A vector with `n` more lines before its own. -/
def shift (n : Nat) (v : KnownAnswer) : KnownAnswer := { v with line := v.line + n }

/-- An error with `n` more lines before the one it tells of. -/
def ReadError.shift (n : Nat) : ReadError → ReadError
  | malformed line reason text => malformed (line + n) reason text
  | unterminated line => unterminated (line + n)
  | allocation cause => allocation cause

section Outcomes

variable {α β γ δ : Type} (n : Nat)

/-- What comes of reading with `n` more lines before: an error tells of a later line, and `move`
    says what becomes of a result. -/
def shiftOutcome (move : α → β) : Except ReadError α → Except ReadError β
  | .ok result => .ok (move result)
  | .error e => .error (e.shift n)

/-- Two steps are shifted one after the other, if the second does the same from the shifted
    result. -/
theorem shiftOutcome_bind {move : α → β} {move' : γ → δ} {next : α → Except ReadError γ}
    {next' : β → Except ReadError δ} (h : ∀ a, next' (move a) = shiftOutcome n move' (next a))
    (outcome : Except ReadError α) :
    (shiftOutcome n move outcome >>= next') = shiftOutcome n move' (outcome >>= next) := by
  -- An error of the first step is shifted at once, and the second is not made.
  cases outcome with
  | error e => rfl
  | ok a => exact h a

end Outcomes

namespace Pending

/-- A vector in progress with `n` more lines before its own. -/
def shift (n : Nat) (p : Pending) : Pending := { p with vector := p.vector.shift n }

variable (n : Nat) (p : Pending)

/-- The line of the header stands apart from the parts, the buffers and what is filled in. -/
@[simp] theorem lengthFault?_shift : (p.shift n).lengthFault? = p.lengthFault? := rfl

@[simp] theorem isOpen_shift : (p.shift n).isOpen = p.isOpen := rfl

@[simp] theorem held_shift (part : Part) : (p.shift n).held part = p.held part := by
  cases part <;> rfl

@[simp] theorem reserved_shift (part : Part) : (p.shift n).reserved part = p.reserved part := by
  cases part <;> rfl

theorem fill_shift (part : Part) (bytes : Bytes) :
    (p.shift n).fill part bytes = (p.fill part bytes).shift n := by
  cases part <;> rfl

/-- Where data goes does not hang on the line of the header. -/
theorem addData_shift (text : Bytes) :
    (p.shift n).addData text = (p.addData text).map (Pending.shift n) := by
  have hpart : (p.shift n).part = p.part := rfl
  simp only [addData_eq, isOpen_shift, hpart, held_shift, reserved_shift, fill_shift]
  cases p.isOpen with
  | false => rfl
  | true => rcases appendData (p.reserved p.part) (p.held p.part) text with ⟨_ | _, bytes⟩ <;> rfl

/-- A header begins the same vector on a later line, or fails to in the same way. -/
theorem ofHeader_shift (canReserve : Nat → Bool) (line : Nat) (h : Header) :
    ofHeader canReserve (line + n) h =
      shiftOutcome n (Pending.shift n) (ofHeader canReserve line h) := by
  unfold ofHeader reserve
  cases canReserve (byteCount h.messageBits) with
  | false => rfl
  | true => cases canReserve (byteCount h.outputBits) <;> rfl

end Pending

/-! ## Readers behind a file -/

namespace Reader

/-- The reader behind `n` lines that `vectors` have been read of. -/
def behind (n : Nat) (vectors : List KnownAnswer) (r : Reader) : Reader where
  vectors := vectors ++ r.vectors.map (KnownAnswer.shift n)
  pending := r.pending.map (Pending.shift n)

variable {canReserve : Nat → Bool} (n : Nat) (vectors : List KnownAnswer)

/-- A line inside a vector does the same behind a file, and is refused for the same reason. -/
theorem stepInside_behind (r : Reader) (p : Pending) (number : Nat) (text : List Char)
    (line : Line) :
    stepInside canReserve (r.behind n vectors) (p.shift n)
        (fun reason => .malformed (number + n) reason text) line =
      shiftOutcome n (behind n vectors)
        (stepInside canReserve r p (fun reason => .malformed number reason text) line) := by
  -- Only the end of a vector adds to the list, and no line looks at what is in it.
  cases line with
  | header | blank | noData | messageHeading | resultHeading => rfl
  | rule =>
    rw [stepInside, stepInside, Pending.lengthFault?_shift]
    cases p.lengthFault? with
    | some reason => rfl
    | none => simp [shiftOutcome, behind, Pending.shift]
  | keyHeading length =>
    cases length with
    | none => rfl
    | some length =>
      obtain ⟨⟨_, _, _, _, _, key, _, _⟩, part, keyLength⟩ := p
      rw [stepInside, stepInside]
      unfold reserve
      cases key with
      | none => rfl
      | some key =>
        cases keyLength with
        | some _ => rfl
        | none => cases canReserve length <;> rfl
  | data bytes =>
    rw [stepInside, stepInside, Pending.addData_shift]
    cases p.addData bytes <;> rfl

/-- A line outside of vectors does the same behind a file, and is refused for the same reason. -/
theorem stepOutside_behind (r : Reader) (number : Nat) (text : List Char) (line : Line) :
    stepOutside canReserve (r.behind n vectors) (number + n)
        (fun reason => .malformed (number + n) reason text) line =
      shiftOutcome n (behind n vectors)
        (stepOutside canReserve r number (fun reason => .malformed number reason text) line) := by
  cases line with
  | header declared =>
    cases declared with
    | none => rfl
    | some declared =>
      rw [stepOutside, stepOutside, Pending.ofHeader_shift]
      refine shiftOutcome_bind n (fun p => ?_) _
      rfl
  | blank | rule | messageHeading | resultHeading | keyHeading | noData | data => rfl

/-- One line does the same behind a file. -/
theorem step_behind (r : Reader) (text : List Char) (number : Nat) :
    step canReserve (r.behind n vectors) (text, number + n) =
      shiftOutcome n (behind n vectors) (step canReserve r (text, number)) := by
  obtain ⟨before, pending⟩ := r
  -- Whether a vector is in progress is the same behind a file.
  cases pending with
  | none => exact stepOutside_behind n vectors ⟨before, none⟩ number text _
  | some p => exact stepInside_behind n vectors ⟨before, some p⟩ p number text _

/-- So do all lines together. -/
theorem readLines_behind (lines : List (List Char)) (number : Nat) (r : Reader) :
    readLines canReserve (number + n) lines (r.behind n vectors) =
      shiftOutcome n (behind n vectors) (readLines canReserve number lines r) := by
  induction lines generalizing number r with
  | nil => rfl
  | cons text rest ih =>
    -- The first line is shifted; the lines behind it are read from the shifted reader.
    rw [readLines_cons_eq, readLines_cons_eq, step_behind]
    refine shiftOutcome_bind n (fun between => ?_) _
    rw [Nat.add_right_comm]
    exact ih (number + 1) between

/-- A vector that has not ended is missed behind a file as well. -/
theorem close_behind (r : Reader) :
    (r.behind n vectors).close =
      shiftOutcome n (fun more => vectors ++ more.map (KnownAnswer.shift n)) r.close := by
  obtain ⟨before, pending⟩ := r
  cases pending <;> rfl

/-- Lines without a header are passed over outside of vectors. -/
theorem readLines_of_no_header {lines : List (List Char)}
    (h : ∀ line ∈ lines, ∀ declared, Line.ofText line ≠ .header declared) (number : Nat) :
    readLines canReserve number lines ⟨vectors, none⟩ = .ok ⟨vectors, none⟩ := by
  induction lines generalizing number with
  | nil => rfl
  | cons line rest ih =>
    -- The move skips the line, and the reader is the same for the next one.
    rw [readLines_cons (.skip (h line List.mem_cons_self))]
    exact ih (fun line hline => h line (List.mem_cons_of_mem _ hline)) (number + 1)

end Reader

/-! ## Texts -/

variable {canReserve : Nat → Bool} {first : List Char} {vectors : List KnownAnswer}

/-- A text behind a file is read by a reader that has the vectors of the file. -/
theorem parse_append_eq (hend : first = [] ∨ first.getLast? = some '\n')
    (h : parse canReserve first = .ok vectors) (second : List Char) :
    parse canReserve (first ++ second) =
      shiftOutcome (Text.lines first).length
        (fun more => vectors ++ more.map (shift (Text.lines first).length))
        (parse canReserve second) := by
  -- The reader that the file leaves is a new one behind the file.
  have hnew : Reader.new.behind (Text.lines first).length vectors = ⟨vectors, none⟩ := by
    simp [Reader.new, Reader.behind]
  rw [parse_eq, parse_eq, Text.lines_append hend, Reader.readLines_append (parse_eq_ok_iff.1 h),
    ← hnew, Reader.readLines_behind]
  exact shiftOutcome_bind _ (Reader.close_behind _ vectors) _

/-- A file with lines behind it that are no headers is read like the file alone. -/
theorem parse_append_of_no_header (hend : first = [] ∨ first.getLast? = some '\n')
    (h : parse canReserve first = .ok vectors) {other : List Char}
    (hother : ∀ line ∈ Text.lines other, ∀ declared, Line.ofText line ≠ .header declared) :
    parse canReserve (first ++ other) = .ok vectors := by
  rw [parse_eq_ok_iff] at h ⊢
  rw [Text.lines_append hend, Reader.readLines_append h]
  exact Reader.readLines_of_no_header vectors hother _

/-- **Files one behind the other.** Behind a file that can be read, of which the last line is ended,
    any text is read as on its own: its vectors come after those of the file, and if it cannot be
    read, the error is the same. Only the numbers of lines differ, by the lines of the file. Lines
    in between that are no headers count as well, and have no other effect. -/
theorem parse_append (hend : first = [] ∨ first.getLast? = some '\n')
    (h : parse canReserve first = .ok vectors) :
    (∀ second : List Char,
      let n := (Text.lines first).length
      parse canReserve (first ++ second) =
        shiftOutcome n (fun more => vectors ++ more.map (shift n)) (parse canReserve second)) ∧
    ∀ other : List Char, (other = [] ∨ other.getLast? = some '\n') →
      (∀ line ∈ Text.lines other, ∀ declared, Line.ofText line ≠ .header declared) →
      ∀ second : List Char,
        let n := (Text.lines first).length + (Text.lines other).length
        parse canReserve (first ++ other ++ second) =
          shiftOutcome n (fun more => vectors ++ more.map (shift n)) (parse canReserve second) := by
  refine ⟨parse_append_eq hend h, fun other hother hlines second => ?_⟩
  -- The lines in between belong to the file as well.
  have hfile : parse canReserve (first ++ other) = .ok vectors :=
    parse_append_of_no_header hend h hlines
  have hended : first ++ other = [] ∨ (first ++ other).getLast? = some '\n' := by
    rcases hother with rfl | hlast
    · simpa using hend
    · exact .inr (by simp [hlast])
  have hcount : (Text.lines first).length + (Text.lines other).length =
      (Text.lines (first ++ other)).length := by
    rw [Text.lines_append hend, List.length_append]
  rw [hcount]
  exact parse_append_eq hended hfile second

/-- Behind a file of five lines and two lines outside of vectors: a file, a line that is not as it
    should be, a vector that does not end, and a message that is too long for a buffer. -/
theorem parse_append_seven_lines :
    let first := "Tests\n".toList ++
      ":Skein-256: 8-bit hash, msgLen = 0 bits\nResult:\n34\n----\n".toList
    let other := "Result:\n----\n".toList
    let joined := fun second : String => parse fitsAddressSpace (first ++ other ++ second.toList)
    joined ":Skein-512: 0-bit hash, msgLen = 0 bits\n----" =
      .ok [⟨2, .skein256, 8, 0, [], none, [0x34], false⟩,
        ⟨8, .skein512, 0, 0, [], none, [], false⟩] ∧
    joined "\n:Skein-256: hash" =
      .error (.malformed 9 .unrecognizedHeader ":Skein-256: hash".toList) ∧
    joined ":Skein-256: 8-bit hash, msgLen = 0 bits\n" = .error (.unterminated 8) ∧
    joined ":Skein-256: 0-bit hash, msgLen = 1125899906842624 bits" =
      .error (.allocation ⟨140737488355328⟩) := by
  intro first other joined
  have hfile : parse fitsAddressSpace first =
      .ok [⟨2, .skein256, 8, 0, [], none, [0x34], false⟩] := by decide +kernel
  -- Outside of vectors a heading and a rule are passed over.
  have hkinds : (Text.lines other).map Line.ofText = [.resultHeading, .rule] := by decide +kernel
  have hother : ∀ line ∈ Text.lines other, ∀ declared, Line.ofText line ≠ .header declared := by
    intro line hline declared hheader
    have hmem := List.mem_map_of_mem (f := Line.ofText) hline
    simp [hkinds, hheader] at hmem
  have hcount : (Text.lines first).length + (Text.lines other).length = 7 := by decide +kernel
  have hjoined := (parse_append (.inr (by decide +kernel)) hfile).2 other
    (.inr (by decide +kernel)) hother
  rw [hcount] at hjoined
  -- Each second text is read on its own, and its lines are moved by seven.
  refine ⟨(hjoined _).trans ?_, (hjoined _).trans ?_, (hjoined _).trans ?_, (hjoined _).trans ?_⟩
  · decide +kernel
  · decide +kernel
  · decide +kernel
  · decide +kernel

end SkeinHash.KnownAnswer
