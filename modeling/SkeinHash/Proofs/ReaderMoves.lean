import SkeinHash.KnownAnswer.Reader

/-!
# What a line does to a reader

The lines that are read without a fault, and what the reader is afterwards, as a relation: one move
for each kind of line. A vector in progress has a buffer for each of its parts, and data lines go to
the part that was opened last.

- `Pending.reserved`, `Pending.held`, `Pending.fill`: the buffers
- `Reader.Move`, `step_eq_ok_iff`: the moves
- `readLines`: the moves of some lines, one after the other
- `parse_eq_ok_iff`: the moves of a text
-/

namespace SkeinHash.KnownAnswer

/-! ## Buffers -/

namespace Pending

/-- How many bytes the buffer of a part has been reserved for. -/
def reserved (p : Pending) : Part → Nat
  | .none => 0
  | .message => byteCount p.vector.messageBits
  | .key => p.keyLength.getD 0
  | .result => byteCount p.vector.outputBits

/-- What has been read of a part. -/
def held (p : Pending) : Part → Bytes
  | .none => []
  | .message => p.vector.message
  | .key => p.vector.key.getD []
  | .result => p.vector.result

/-- Replaces what has been read of a part. -/
def fill (p : Pending) (part : Part) (bytes : Bytes) : Pending :=
  match part with
  | .none => p
  | .message => { p with vector := { p.vector with message := bytes } }
  | .key => { p with vector := { p.vector with key := some bytes } }
  | .result => { p with vector := { p.vector with result := bytes } }

/-- Whether there is a part that data lines belong to. -/
def isOpen (p : Pending) : Bool :=
  match p.part with
  | .none => false
  | .key => p.vector.key.isSome && p.keyLength.isSome
  | .message | .result => true

/-- The vector that a header begins, before anything has been read of it. -/
def fresh (line : Nat) (h : Header) : Pending where
  vector :=
    { line, size := h.size, outputBits := h.outputBits, messageBits := h.messageBits
      message := [], key := if h.isKeyed then some [] else none, result := [], isTree := h.isTree }
  part := .none
  keyLength := none

variable {canReserve : Nat → Bool} {p : Pending}

/-- Filling a part replaces its data and nothing else. -/
@[simp] theorem part_fill (part : Part) (bytes : Bytes) : (p.fill part bytes).part = p.part := by
  cases part <;> rfl

@[simp] theorem reserved_fill (part other : Part) (bytes : Bytes) :
    (p.fill part bytes).reserved other = p.reserved other := by
  cases part <;> cases other <;> rfl

@[simp] theorem keyLength_fill (part : Part) (bytes : Bytes) :
    (p.fill part bytes).keyLength = p.keyLength := by
  cases part <;> rfl

@[simp] theorem line_fill (part : Part) (bytes : Bytes) :
    (p.fill part bytes).vector.line = p.vector.line := by
  cases part <;> rfl

/-- A vector with a key keeps having one. -/
theorem isSome_key_fill (h : p.vector.key.isSome = true) (part : Part) (bytes : Bytes) :
    (p.fill part bytes).vector.key.isSome = true := by
  cases part <;> first | exact h | rfl

/-- Only the last data that a part is filled with stays. -/
@[simp] theorem fill_fill (part : Part) (first second : Bytes) :
    (p.fill part first).fill part second = p.fill part second := by
  cases part <;> rfl

/-- A part holds what it was filled with. -/
theorem held_fill {part : Part} (h : part ≠ .none) (bytes : Bytes) :
    (p.fill part bytes).held part = bytes := by
  cases part <;> first | rfl | exact absurd rfl h

/-- The other parts hold what they did. -/
theorem held_fill_of_ne {part other : Part} (h : other ≠ part) (bytes : Bytes) :
    (p.fill part bytes).held other = p.held other := by
  cases part <;> cases other <;> first | rfl | exact absurd rfl h

/-- Something is open once a heading has been read. -/
theorem part_ne_none (h : p.isOpen = true) : p.part ≠ .none := by
  intro hpart
  simp [isOpen, hpart] at h

/-- A part stays open while it is filled. -/
theorem isOpen_fill (h : p.isOpen = true) (bytes : Bytes) :
    (p.fill p.part bytes).isOpen = true := by
  cases hpart : p.part <;> simp_all [isOpen, fill]

/-- Filling a part with what it holds changes nothing. -/
theorem fill_held (h : p.isOpen = true) : p.fill p.part (p.held p.part) = p := by
  obtain ⟨⟨_, _, _, _, _, key, _, _⟩, part, keyLength⟩ := p
  -- Only for the key there is a difference: a vector without one would get an empty one.
  cases part with
  | none | message | result => rfl
  | key =>
    cases key with
    | none => simp [isOpen] at h
    | some key => rfl

/-- A vector may end when all its parts have the declared lengths. -/
theorem lengthFault?_eq_none_iff :
    p.lengthFault? = none ↔
      p.vector.message.length = byteCount p.vector.messageBits ∧
      p.vector.result.length = byteCount p.vector.outputBits ∧
      ∀ key, p.vector.key = some key → p.keyLength = some key.length := by
  unfold lengthFault?
  -- The checks come one after the other; only the last one looks at the key.
  split
  · simp_all
  split
  · simp_all
  cases p.vector.key <;> cases p.keyLength <;> simp_all [eq_comm]

/-- Data that fits goes to the open part; without one it is refused. -/
theorem addData_eq (text : Bytes) :
    p.addData text =
      if p.isOpen then
        match appendData (p.reserved p.part) (p.held p.part) text with
        | (.error fault, _) => .error (.data fault)
        | (.ok (), bytes) => .ok (p.fill p.part bytes)
      else .error .dataOutsideSection := by
  obtain ⟨⟨_, _, _, _, _, key, _, _⟩, part, keyLength⟩ := p
  -- Every part is looked up in its own place; the key only if it has been declared.
  cases part with
  | none | message | result => rfl
  | key => cases key <;> cases keyLength <;> rfl

/-- A header begins a vector if there is room for its message and its output. -/
theorem ofHeader_eq_ok_iff {line : Nat} {h : Header} :
    ofHeader canReserve line h = .ok p ↔
      canReserve (byteCount h.messageBits) = true ∧ canReserve (byteCount h.outputBits) = true ∧
        p = fresh line h := by
  unfold ofHeader reserve
  -- The buffer of the message is reserved first.
  cases canReserve (byteCount h.messageBits) with
  | false => simp [bind, Except.bind]
  | true =>
    cases canReserve (byteCount h.outputBits) with
    | false => simp [bind, Except.bind]
    | true => simpa [bind, Except.bind, pure, Except.pure, fresh] using eq_comm

end Pending

/-! ## Moves -/

namespace Reader

variable (canReserve : Nat → Bool)

/-- What a line with a number does to a reader, if it is read without a fault. -/
inductive Move (number : Nat) : Line → Reader → Reader → Prop where
  /-- Outside of vectors everything but a header is skipped. -/
  | skip {line : Line} {vectors : List KnownAnswer} : (∀ declared, line ≠ .header declared) →
      Move number line ⟨vectors, none⟩ ⟨vectors, none⟩
  /-- A header begins a vector. -/
  | header {h : Header} {vectors : List KnownAnswer} :
      canReserve (byteCount h.messageBits) = true → canReserve (byteCount h.outputBits) = true →
      Move number (.header (some h)) ⟨vectors, none⟩ ⟨vectors, some (.fresh number h)⟩
  /-- Inside of vectors blank lines and remarks are skipped. -/
  | idle {line : Line} {vectors : List KnownAnswer} {p : Pending} :
      line = .blank ∨ line = .noData → Move number line ⟨vectors, some p⟩ ⟨vectors, some p⟩
  /-- A heading opens the message. -/
  | message {vectors : List KnownAnswer} {p : Pending} :
      Move number .messageHeading ⟨vectors, some p⟩ ⟨vectors, some { p with part := .message }⟩
  /-- A heading opens the output. -/
  | result {vectors : List KnownAnswer} {p : Pending} :
      Move number .resultHeading ⟨vectors, some p⟩ ⟨vectors, some { p with part := .result }⟩
  /-- A heading declares the length of the key and opens it, once and in vectors with a key. -/
  | key {length : Nat} {vectors : List KnownAnswer} {p : Pending} :
      p.vector.key.isSome = true → p.keyLength = none → canReserve length = true →
      Move number (.keyHeading (some length)) ⟨vectors, some p⟩
        ⟨vectors, some { p with part := .key, keyLength := some length }⟩
  /-- Data goes to the open part. -/
  | data {text bytes : Bytes} {vectors : List KnownAnswer} {p : Pending} :
      p.isOpen = true →
      appendData (p.reserved p.part) (p.held p.part) text = (.ok (), bytes) →
      Move number (.data text) ⟨vectors, some p⟩ ⟨vectors, some (p.fill p.part bytes)⟩
  /-- A rule ends a vector with the right lengths. -/
  | rule {vectors : List KnownAnswer} {p : Pending} : p.lengthFault? = none →
      Move number .rule ⟨vectors, some p⟩ ⟨vectors ++ [p.vector], none⟩

variable {canReserve : Nat → Bool} {number : Nat} {r r' : Reader}
  {vectors : List KnownAnswer} {p : Pending} {refuse : Reason → ReadError} {line : Line}

/-- The moves outside of vectors are what the reader does there without a fault. -/
theorem stepOutside_eq_ok_iff :
    stepOutside canReserve ⟨vectors, none⟩ number refuse line = .ok r' ↔
      Move canReserve number line ⟨vectors, none⟩ r' := by
  constructor
  · intro h
    -- Only headers are looked at; all other lines leave the reader as it is.
    match line with
    | .header none => cases h
    | .header (some declared) =>
      cases hp : Pending.ofHeader canReserve number declared with
      | error e => simp [stepOutside, hp, bind, Except.bind] at h
      | ok p =>
        obtain ⟨hmessage, hresult, rfl⟩ := Pending.ofHeader_eq_ok_iff.1 hp
        simp only [stepOutside, hp, bind, Except.bind, pure, Except.pure, Except.ok.injEq] at h
        subst h
        exact .header hmessage hresult
    | .blank | .rule | .messageHeading | .resultHeading | .keyHeading _ | .noData | .data _ =>
      cases h
      exact .skip (by simp)
  · intro h
    cases h with
    | skip hline =>
      cases line with
      | header declared => exact absurd rfl (hline declared)
      | _ => rfl
    | @header declared _ hmessage hresult =>
      have hp : Pending.ofHeader canReserve number declared = .ok (.fresh number declared) :=
        Pending.ofHeader_eq_ok_iff.2 ⟨hmessage, hresult, rfl⟩
      simp only [stepOutside, hp, bind, Except.bind, pure, Except.pure]

/-- The heading of a key is read once, in vectors with a key, and if there is room for the key. -/
theorem stepInside_keyHeading_eq_ok_iff {length : Nat} :
    stepInside canReserve ⟨vectors, some p⟩ p refuse (.keyHeading (some length)) = .ok r' ↔
      p.vector.key.isSome = true ∧ p.keyLength = none ∧ canReserve length = true ∧
        r' = ⟨vectors, some { p with part := .key, keyLength := some length }⟩ := by
  cases hkey : p.vector.key with
  | none => simp [stepInside, hkey]
  | some key =>
    cases hlength : p.keyLength with
    -- A second heading is refused before anything is reserved for it.
    | some _ => simp [stepInside, hkey, hlength]
    | none =>
      cases hreserve : canReserve length with
      | false => simp [stepInside, hkey, hlength, reserve, hreserve, bind, Except.bind]
      | true =>
        simpa [stepInside, hkey, hlength, reserve, hreserve, bind, Except.bind, pure, Except.pure]
          using eq_comm

/-- Data is read if a part is open and the data fits into its buffer. -/
theorem stepInside_data_eq_ok_iff {text : Bytes} :
    stepInside canReserve ⟨vectors, some p⟩ p refuse (.data text) = .ok r' ↔
      p.isOpen = true ∧ ∃ bytes,
        appendData (p.reserved p.part) (p.held p.part) text = (.ok (), bytes) ∧
        r' = ⟨vectors, some (p.fill p.part bytes)⟩ := by
  rw [stepInside, Pending.addData_eq]
  -- Without an open part there is no buffer to append to.
  cases p.isOpen with
  | false => simp
  | true =>
    rcases appendData (p.reserved p.part) (p.held p.part) text with ⟨_ | ⟨⟨⟩⟩, bytes⟩
    · simp
    · simpa using eq_comm

/-- A rule is read if all parts have the declared lengths. -/
theorem stepInside_rule_eq_ok_iff :
    stepInside canReserve ⟨vectors, some p⟩ p refuse .rule = .ok r' ↔
      p.lengthFault? = none ∧ r' = ⟨vectors ++ [p.vector], none⟩ := by
  cases hfault : p.lengthFault? with
  | some reason => simp [stepInside, hfault]
  | none => simpa [stepInside, hfault] using eq_comm

/-- The moves inside of vectors are what the reader does there without a fault. -/
theorem stepInside_eq_ok_iff :
    stepInside canReserve ⟨vectors, some p⟩ p refuse line = .ok r' ↔
      Move canReserve number line ⟨vectors, some p⟩ r' := by
  constructor
  · intro h
    -- A header, or a heading without a number, is a fault; each other line is its own move.
    match line with
    | .header _ | .keyHeading none => cases h
    | .blank =>
      cases h
      exact .idle (.inl rfl)
    | .noData =>
      cases h
      exact .idle (.inr rfl)
    | .messageHeading =>
      cases h
      exact .message
    | .resultHeading =>
      cases h
      exact .result
    | .rule =>
      obtain ⟨hfault, rfl⟩ := stepInside_rule_eq_ok_iff.1 h
      exact .rule hfault
    | .keyHeading (some length) =>
      obtain ⟨hkey, hlength, hreserve, rfl⟩ := stepInside_keyHeading_eq_ok_iff.1 h
      exact .key hkey hlength hreserve
    | .data text =>
      obtain ⟨hopen, bytes, happend, rfl⟩ := stepInside_data_eq_ok_iff.1 h
      exact .data hopen happend
  · intro h
    cases h with
    | idle hline => rcases hline with rfl | rfl <;> rfl
    | message | result => rfl
    | key hkey hlength hreserve =>
      exact stepInside_keyHeading_eq_ok_iff.2 ⟨hkey, hlength, hreserve, rfl⟩
    | data hopen happend => exact stepInside_data_eq_ok_iff.2 ⟨hopen, _, happend, rfl⟩
    | rule hfault => exact stepInside_rule_eq_ok_iff.2 ⟨hfault, rfl⟩

/-- The moves are all that a line can do without a fault. -/
theorem step_eq_ok_iff {text : List Char} :
    step canReserve r (text, number) = .ok r' ↔ Move canReserve number (Line.ofText text) r r' := by
  obtain ⟨vectors, pending⟩ := r
  unfold step
  cases pending with
  | none => exact stepOutside_eq_ok_iff
  | some p => exact stepInside_eq_ok_iff

/-! ## Some lines -/

variable (canReserve) in
/-- Reads lines that are numbered from the first number on. -/
def readLines (number : Nat) (lines : List (List Char)) (r : Reader) : Except ReadError Reader :=
  (lines.zipIdx number).foldlM (step canReserve) r

@[simp] theorem readLines_nil : readLines canReserve number [] r = .ok r := rfl

/-- The first of some lines is read before the others, which have the following numbers. -/
theorem readLines_cons_eq {text : List Char} {rest : List (List Char)} :
    readLines canReserve number (text :: rest) r =
      step canReserve r (text, number) >>= readLines canReserve (number + 1) rest := by
  simp only [readLines, List.zipIdx_cons, List.foldlM_cons]
  rfl

/-- After the move of the first line the other lines are read. -/
theorem readLines_cons {text : List Char} {rest : List (List Char)}
    (h : Move canReserve number (Line.ofText text) r r') :
    readLines canReserve number (text :: rest) r = readLines canReserve (number + 1) rest r' := by
  rw [readLines_cons_eq, step_eq_ok_iff.2 h]
  rfl

/-- Lines behind others are read from where those have left the reader. -/
theorem readLines_append {lines rest : List (List Char)}
    (h : readLines canReserve number lines r = .ok r') :
    readLines canReserve number (lines ++ rest) r =
      readLines canReserve (number + lines.length) rest r' := by
  unfold readLines at h ⊢
  rw [List.zipIdx_append, List.foldlM_append, h]
  rfl

/-- The last of some lines that are read makes a move. -/
theorem move_of_readLines_concat {lines : List (List Char)} {text : List Char}
    (h : readLines canReserve number (lines ++ [text]) r = .ok r') :
    ∃ between, readLines canReserve number lines r = .ok between ∧
      Move canReserve (number + lines.length) (Line.ofText text) between r' := by
  unfold readLines at h ⊢
  rw [List.zipIdx_append, List.foldlM_append] at h
  cases hlines : (lines.zipIdx number).foldlM (step canReserve) r with
  | error e => simp [hlines, bind, Except.bind] at h
  | ok between =>
    refine ⟨between, rfl, step_eq_ok_iff.1 ?_⟩
    rw [hlines] at h
    -- The last line has the number behind those of the lines before it.
    change [(text, number + lines.length)].foldlM (step canReserve) between = .ok r' at h
    simpa using h

end Reader

/-- A text is read line by line from a new reader, which is closed at the end. -/
theorem parse_eq (canReserve : Nat → Bool) (text : List Char) :
    parse canReserve text =
      (Reader.readLines canReserve 1 (Text.lines text) Reader.new >>= Reader.close) := rfl

/-- A text can be read if all its lines can, and the last of them is outside of vectors. -/
theorem parse_eq_ok_iff {canReserve : Nat → Bool} {text : List Char}
    {vectors : List KnownAnswer} :
    parse canReserve text = .ok vectors ↔
      Reader.readLines canReserve 1 (Text.lines text) Reader.new = .ok ⟨vectors, none⟩ := by
  rw [parse_eq]
  cases Reader.readLines canReserve 1 (Text.lines text) Reader.new with
  | error e => simp [bind, Except.bind]
  | ok r =>
    -- A vector in progress at the end is an error.
    obtain ⟨_, _ | p⟩ := r
    · simp [bind, Except.bind, Reader.close]
    · simp [bind, Except.bind, Reader.close]

end SkeinHash.KnownAnswer
