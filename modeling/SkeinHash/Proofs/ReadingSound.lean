import SkeinHash.Proofs.DataLineReading
import SkeinHash.Proofs.HeaderLine
import SkeinHash.Proofs.ReaderMoves
import Mathlib.Data.List.Forall2
import Mathlib.Data.List.Induction

/-!
# What can be read is sound

Whatever a text holds, if a list of known answers can be read from it then each of its headers gives
one of them, with all that the header declares, and all their parts have the declared lengths. At no
line on the way, whether the text can be read or not, does a buffer hold more than has been reserved
for it.

- `Declares`, `Complete`: a vector as a header declares it and as its lines give it
- `Reader.Sound`: what holds of a reader after some lines
- `sound_move`, `sound_readLines`: one line keeps it, and so do all
- `parse_sound`: the vectors of a text
-/

namespace SkeinHash.KnownAnswer

/-! ## Lines -/

/-- The headers among lines, with their numbers. -/
def headerLines (lines : List (List Char)) : List (List Char × Nat) :=
  (lines.zipIdx 1).filter fun l => Header.isHeader l.1

/-- The key length that a line declares, if it is a heading of a key; `none` inside if that is not
    readable. -/
def keyHeading? (text : List Char) : Option (Option Nat) :=
  match Line.ofText text with
  | .keyHeading length => some length
  | _ => none

/-- A vector has what its header declares. -/
structure Declares (header : List Char × Nat) (v : KnownAnswer) : Prop where
  line : v.line = header.2
  declared : ∃ h, Header.parse? header.1 = some h ∧
    v.size = h.size ∧ v.outputBits = h.outputBits ∧ v.messageBits = h.messageBits ∧
    v.isTree = h.isTree
  keyed : v.key.isSome = true ↔ "MAC".toList <:+ Text.trimRight header.1

/-- Some lines are neither headers nor rules. -/
def Inside (lines : List (List Char)) : Prop :=
  ∀ text ∈ lines, Header.isHeader text = false ∧ Line.ofText text ≠ .rule

/-- The parts of a vector have the declared lengths. That of the key is the one of the only heading
    of a key before the rule that ends the vector. -/
structure Complete (lines : List (List Char)) (v : KnownAnswer) : Prop where
  message_length : v.message.length = byteCount v.messageBits
  result_length : v.result.length = byteCount v.outputBits
  key_length : ∃ body rule rest, lines.drop v.line = body ++ rule :: rest ∧
    Inside body ∧ Line.ofText rule = .rule ∧
    body.filterMap keyHeading? = (v.key.map fun key => some key.length).toList

/-- One more line may be one more header, with the number of the line. -/
theorem headerLines_concat (lines : List (List Char)) (text : List Char) :
    headerLines (lines ++ [text]) =
      headerLines lines ++
        if Header.isHeader text then [(text, 1 + lines.length)] else [] := by
  unfold headerLines
  rw [List.zipIdx_append, List.filter_append]
  cases h : Header.isHeader text <;> simp [h]

/-- A vector that is complete stays so with more lines. -/
theorem Complete.concat {lines : List (List Char)} {v : KnownAnswer} (h : Complete lines v)
    (text : List Char) : Complete (lines ++ [text]) v := by
  obtain ⟨body, rule, rest, hdrop, hinside, hrule, hkey⟩ := h.key_length
  -- The header stands among the lines, since a rule stands behind it.
  have hle : v.line ≤ lines.length := by
    by_contra hlt
    rw [List.drop_eq_nil_of_le (by omega)] at hdrop
    simp at hdrop
  refine ⟨h.message_length, h.result_length, body, rule, rest ++ [text], ?_, hinside, hrule, hkey⟩
  rw [List.drop_append_of_le_length hle, hdrop, List.append_assoc, List.cons_append]

/-! ## Vectors in progress -/

/-- No buffer holds more than has been reserved for it, and all of them could be reserved. -/
structure Pending.Bounded (canReserve : Nat → Bool) (p : Pending) : Prop where
  held_le : ∀ part, (p.held part).length ≤ p.reserved part
  message : canReserve (p.reserved .message) = true
  result : canReserve (p.reserved .result) = true
  key : ∀ length, p.keyLength = some length → canReserve length = true

/-- What holds of a vector in progress after some lines. -/
structure Pending.Progress (canReserve : Nat → Bool) (lines : List (List Char)) (p : Pending) :
    Prop where
  bounded : p.Bounded canReserve
  line_le : p.vector.line ≤ lines.length
  inside : Inside (lines.drop p.vector.line)
  headings : (lines.drop p.vector.line).filterMap keyHeading? = (p.keyLength.map some).toList
  keyed : p.keyLength.isSome = true → p.vector.key.isSome = true

namespace Pending

variable {canReserve : Nat → Bool} {p : Pending}

/-- At its header the buffers of a vector are empty, and there is room for them. -/
theorem bounded_fresh {line : Nat} {h : Header}
    (hmessage : canReserve (byteCount h.messageBits) = true)
    (hresult : canReserve (byteCount h.outputBits) = true) :
    (fresh line h).Bounded canReserve where
  held_le part := by cases part <;> cases hkeyed : h.isKeyed <;> simp [held, fresh, hkeyed]
  message := hmessage
  result := hresult
  key := by simp [fresh]

/-- Opening a part leaves the buffers as they are. -/
theorem Bounded.open_part (h : p.Bounded canReserve) (part : Part) :
    { p with part := part }.Bounded canReserve :=
  ⟨h.held_le, h.message, h.result, h.key⟩

/-- The declared length of a key is the size of its buffer. -/
theorem Bounded.open_key (h : p.Bounded canReserve) {length : Nat} (hnone : p.keyLength = none)
    (hreserve : canReserve length = true) :
    { p with part := .key, keyLength := some length }.Bounded canReserve where
  held_le part := by
    have hheld := h.held_le part
    cases part with
    | key =>
      -- Nothing has been read of a key that has not been declared.
      have hempty : p.held .key = [] := by simpa [reserved, hnone] using hheld
      change (p.held .key).length ≤ length
      rw [hempty]
      exact Nat.zero_le _
    | none | message | result => exact hheld
  message := h.message
  result := h.result
  key := by simpa using hreserve

/-- Data that fits into the buffer of the open part keeps the bounds. -/
theorem Bounded.fill (h : p.Bounded canReserve) (hopen : p.isOpen = true) {bytes : Bytes}
    (hroom : bytes.length ≤ p.reserved p.part) : (p.fill p.part bytes).Bounded canReserve where
  held_le part := by
    rw [reserved_fill]
    -- The open part holds the new bytes, and the other parts hold what they held.
    by_cases hpart : part = p.part
    · rw [hpart, held_fill (part_ne_none hopen)]
      exact hroom
    · rw [held_fill_of_ne hpart]
      exact h.held_le part
  message := by simpa using h.message
  result := by simpa using h.result
  key := by simpa using h.key

/-- A vector that has just begun, on the last of the lines. -/
theorem progress_fresh {lines : List (List Char)} {h : Header}
    (hmessage : canReserve (byteCount h.messageBits) = true)
    (hresult : canReserve (byteCount h.outputBits) = true) (text : List Char) :
    (fresh (1 + lines.length) h).Progress canReserve (lines ++ [text]) := by
  have hline : (fresh (1 + lines.length) h).vector.line = (lines ++ [text]).length := by
    rw [List.length_append, Nat.add_comm]
    rfl
  have hdrop : (lines ++ [text]).drop (fresh (1 + lines.length) h).vector.line = [] := by
    rw [hline, List.drop_length]
  -- There are no lines behind the header yet, so neither a rule nor a heading.
  refine ⟨bounded_fresh hmessage hresult, Nat.le_of_eq hline, ?_, ?_, by simp [fresh]⟩
  · rw [hdrop]
    simp [Inside]
  · rw [hdrop]
    rfl

/-- One more line inside of a vector. -/
theorem Progress.concat {lines : List (List Char)} {text : List Char} {q : Pending}
    (h : p.Progress canReserve lines) (hheader : Header.isHeader text = false)
    (hrule : Line.ofText text ≠ .rule) (hline : q.vector.line = p.vector.line)
    (hbounded : q.Bounded canReserve)
    (hheadings : (p.keyLength.map some).toList ++ (keyHeading? text).toList =
      (q.keyLength.map some).toList)
    (hkeyed : q.keyLength.isSome = true → q.vector.key.isSome = true) :
    q.Progress canReserve (lines ++ [text]) where
  bounded := hbounded
  line_le := by
    have := h.line_le
    simp [hline]
    omega
  -- The line comes behind the others, as the header is among them.
  inside := by
    rw [hline, List.drop_append_of_le_length h.line_le]
    intro other hmem
    rcases List.mem_append.1 hmem with hmem | hmem
    · exact h.inside other hmem
    · obtain rfl := List.mem_singleton.1 hmem
      exact ⟨hheader, hrule⟩
  headings := by
    rw [hline, List.drop_append_of_le_length h.line_le, List.filterMap_append, h.headings,
      ← hheadings]
    cases hkey : keyHeading? text <;> simp [hkey]
  keyed := hkeyed

end Pending

namespace Reader

variable {canReserve : Nat → Bool}

/-- What holds of a reader after some lines. -/
inductive Sound (canReserve : Nat → Bool) (lines : List (List Char)) : Reader → Prop where
  /-- Between vectors: every header has its vector. -/
  | between {vectors : List KnownAnswer} : List.Forall₂ Declares (headerLines lines) vectors →
      (∀ v ∈ vectors, Complete lines v) → Sound canReserve lines ⟨vectors, none⟩
  /-- Inside of a vector: it is that of the last header. -/
  | inside {vectors : List KnownAnswer} {p : Pending} {earlier : List (List Char × Nat)}
      {header : List Char × Nat} : headerLines lines = earlier ++ [header] →
      List.Forall₂ Declares earlier vectors → (∀ v ∈ vectors, Complete lines v) →
      Declares header p.vector → p.Progress canReserve lines →
      Sound canReserve lines ⟨vectors, some p⟩

/-- A line that neither begins nor ends a vector goes on with the vector in progress. -/
theorem Sound.go_on {lines : List (List Char)} {vectors : List KnownAnswer} {p q : Pending}
    {text : List Char} (h : Sound canReserve lines ⟨vectors, some p⟩)
    (hheader : Header.isHeader text = false)
    (hdeclares : ∀ header, Declares header p.vector → Declares header q.vector)
    (hprogress : p.Progress canReserve lines → q.Progress canReserve (lines ++ [text])) :
    Sound canReserve (lines ++ [text]) ⟨vectors, some q⟩ := by
  cases h with
  | inside hheaders hearlier hcomplete hlast hp =>
    refine .inside ?_ hearlier (fun v hv => (hcomplete v hv).concat text) (hdeclares _ hlast)
      (hprogress hp)
    simpa [headerLines_concat, hheader] using hheaders

/-- The vector that a header begins has what the header declares. -/
theorem declares_fresh {text : List Char} {h : Header} (hline : Line.ofText text = .header (some h))
    (number : Nat) : Declares (text, number) (Pending.fresh number h).vector := by
  have hparse := (Line.ofText_eq_header_iff.1 hline).2
  refine ⟨rfl, ⟨h, hparse, rfl, rfl, rfl, rfl⟩, ?_⟩
  rw [← Header.isKeyed_iff hparse]
  cases hkeyed : h.isKeyed <;> simp [Pending.fresh, hkeyed]

/-- Data does not change what has been declared. -/
theorem declares_fill {p : Pending} (hopen : p.isOpen = true) {header : List Char × Nat}
    (bytes : Bytes) (h : Declares header p.vector) :
    Declares header (p.fill p.part bytes).vector := by
  obtain ⟨⟨_, _, _, _, _, key, _, _⟩, part, _⟩ := p
  -- Only filling the key could change whether there is one, and it is open only if so.
  cases part with
  | none | message | result => exact ⟨h.line, h.declared, h.keyed⟩
  | key =>
    cases key with
    | none => simp [Pending.isOpen] at hopen
    | some key => exact ⟨h.line, h.declared, h.keyed⟩

/-- A rule that is read without a fault makes the vector in progress a complete one. -/
theorem complete_of_rule {lines : List (List Char)} {p : Pending} {text : List Char}
    (h : p.Progress canReserve lines) (hfault : p.lengthFault? = none)
    (hrule : Line.ofText text = .rule) : Complete (lines ++ [text]) p.vector := by
  obtain ⟨hmessage, hresult, hkey⟩ := Pending.lengthFault?_eq_none_iff.1 hfault
  -- The lines behind the header up to this one are the body of the vector.
  refine ⟨hmessage, hresult, lines.drop p.vector.line, text, [], ?_, h.inside, hrule, ?_⟩
  · rw [List.drop_append_of_le_length h.line_le]
  · rw [h.headings]
    cases hvector : p.vector.key with
    | some key => rw [hkey key hvector, Option.map_some, Option.map_some]
    | none =>
      -- Without a key there has been no heading of one.
      cases hlength : p.keyLength with
      | none => rfl
      | some length => simpa [hlength, hvector] using h.keyed

/-- One line keeps what holds of a reader. -/
theorem sound_move {lines : List (List Char)} {text : List Char} {r r' : Reader}
    (h : Sound canReserve lines r)
    (hmove : Move canReserve (1 + lines.length) (Line.ofText text) r r') :
    Sound canReserve (lines ++ [text]) r' := by
  generalize hline : Line.ofText text = line at hmove
  have hother : (∀ declared, line ≠ .header declared) → Header.isHeader text = false := by
    rw [← hline]
    exact Line.isHeader_eq_false_iff.2
  -- One case for each kind of move: what it adds to the headers and to the vectors.
  cases hmove with
  | skip hne =>
    -- No header, so there is nothing to count.
    have hheader := hother hne
    cases h with
    | between hheaders hcomplete =>
      refine .between ?_ fun v hv => (hcomplete v hv).concat text
      simpa [headerLines_concat, hheader] using hheaders
  | @header declared vectors hmessage hresult =>
    have hheader := (Line.ofText_eq_header_iff.1 hline).1
    cases h with
    | between hheaders hcomplete =>
      refine .inside (by simp [headerLines_concat, hheader]) hheaders
        (fun v hv => (hcomplete v hv).concat text) (declares_fresh hline _) ?_
      exact Pending.progress_fresh hmessage hresult text
  | idle hidle =>
    have hheader := hother (by rcases hidle with rfl | rfl <;> simp)
    refine h.go_on hheader (fun _ hd => hd) fun hp => ?_
    refine hp.concat hheader ?_ rfl hp.bounded ?_ hp.keyed
    · rw [hline]
      rcases hidle with rfl | rfl <;> simp
    · rcases hidle with rfl | rfl <;> simp [keyHeading?, hline]
  | message =>
    have hheader := hother (by simp)
    exact h.go_on hheader (fun _ hd => hd) fun hp =>
      hp.concat hheader (by simp [hline]) rfl (hp.bounded.open_part _)
        (by simp [keyHeading?, hline]) hp.keyed
  | result =>
    have hheader := hother (by simp)
    exact h.go_on hheader (fun _ hd => hd) fun hp =>
      hp.concat hheader (by simp [hline]) rfl (hp.bounded.open_part _)
        (by simp [keyHeading?, hline]) hp.keyed
  | key hkeyed hnone hreserve =>
    -- The list of headings was empty, since no length had been declared.
    have hheader := hother (by simp)
    exact h.go_on hheader (fun _ hd => hd) fun hp =>
      hp.concat hheader (by simp [hline]) rfl (hp.bounded.open_key hnone hreserve)
        (by simp [keyHeading?, hline, hnone]) fun _ => hkeyed
  | @data bytes _ vectors p hopen happend =>
    have hheader := hother (by simp)
    refine h.go_on hheader (fun _ hd => declares_fill hopen _ hd) fun hp => ?_
    have hroom := length_appendData_le (hp.bounded.held_le p.part) bytes
    rw [happend] at hroom
    exact hp.concat hheader (by simp [hline]) (by simp) (hp.bounded.fill hopen hroom)
      (by simp [keyHeading?, hline]) fun hlength =>
        Pending.isSome_key_fill (hp.keyed (by simpa using hlength)) _ _
  | rule hfault =>
    have hheader := hother (by simp)
    cases h with
    | inside hheaders hearlier hcomplete hlast hp =>
      -- The vector of the last header joins the others, complete with this line.
      refine .between ?_ ?_
      · rw [headerLines_concat, hheaders, hheader, if_neg (by simp), List.append_nil]
        exact List.rel_append hearlier (.cons hlast .nil)
      · intro v hv
        rcases List.mem_append.1 hv with hv | hv
        · exact (hcomplete v hv).concat text
        · obtain rfl := List.mem_singleton.1 hv
          exact complete_of_rule hp hfault hline

/-- All lines keep what holds of a reader. -/
theorem sound_readLines {lines : List (List Char)} {r : Reader}
    (h : readLines canReserve 1 lines Reader.new = .ok r) : Sound canReserve lines r := by
  -- The induction is on the lines read so far: the last of them makes one move.
  induction lines using List.reverseRecOn generalizing r with
  | nil =>
    obtain rfl : Reader.new = r := by simpa using h
    exact .between .nil (by simp)
  | append_singleton lines text ih =>
    obtain ⟨between, hbefore, hmove⟩ := move_of_readLines_concat h
    exact sound_move (ih hbefore) hmove

/-- A vector in progress after some lines is sound. -/
theorem progress_of_readLines {lines : List (List Char)} {r : Reader} {p : Pending}
    (h : readLines canReserve 1 lines Reader.new = .ok r) (hpending : r.pending = some p) :
    p.Progress canReserve lines := by
  cases sound_readLines h with
  | between => simp at hpending
  | inside _ _ _ _ hp =>
    obtain rfl := Option.some.inj hpending
    exact hp

end Reader

/-! ## Texts -/

/-- Vectors stand in the lines of their headers. -/
theorem map_line_of_declares {headers : List (List Char × Nat)} {vectors : List KnownAnswer}
    (h : List.Forall₂ Declares headers vectors) :
    vectors.map (·.line) = headers.map (·.2) := by
  induction h with
  | nil => rfl
  | cons hfirst _ ih => rw [List.map_cons, List.map_cons, hfirst.line, ih]

/-- The numbers of header lines ascend. -/
theorem pairwise_headerLines (lines : List (List Char)) :
    ((headerLines lines).map (·.2)).Pairwise (· < ·) := by
  have hsub : ((headerLines lines).map (·.2)).Sublist ((lines.zipIdx 1).map (·.2)) :=
    List.filter_sublist.map _
  refine List.Pairwise.sublist hsub ?_
  rw [List.zipIdx_map_snd]
  exact List.pairwise_lt_range'

/-- **What can be read is sound.** If a text can be read, its header lines and its vectors correspond
    one to one, in ascending order of the lines; each vector has what its header declares, and its
    parts have the declared lengths. On the way, after any of the lines of any text, no buffer holds
    more than has been reserved for it, nor would it after part of another data line. -/
theorem parse_sound (canReserve : Nat → Bool) (text : List Char) :
    (∀ vectors, parse canReserve text = .ok vectors →
      List.Forall₂ Declares (headerLines (Text.lines text)) vectors ∧
      (vectors.map (·.line)).Pairwise (· < ·) ∧
      ∀ v ∈ vectors, Complete (Text.lines text) v) ∧
    ∀ before after r p, Text.lines text = before ++ after →
      (before.zipIdx 1).foldlM (Reader.step canReserve) Reader.new = .ok r → r.pending = some p →
      p.Bounded canReserve ∧
      ∀ line, (appendData (p.reserved p.part) (p.held p.part) line).2.length ≤
        p.reserved p.part := by
  constructor
  · intro vectors hparse
    rw [parse_eq] at hparse
    cases hread : Reader.readLines canReserve 1 (Text.lines text) Reader.new with
    | error e => simp [hread, bind, Except.bind] at hparse
    | ok r =>
      rw [hread] at hparse
      cases Reader.sound_readLines hread with
      | between hheaders hcomplete =>
        cases hparse
        refine ⟨hheaders, ?_, hcomplete⟩
        rw [map_line_of_declares hheaders]
        exact pairwise_headerLines _
      | inside => cases hparse
  · intro before after r p _ hread hpending
    -- Every start of the lines is a list of lines that has been read.
    have hp := Reader.progress_of_readLines hread hpending
    exact ⟨hp.bounded, fun line => length_appendData_le (hp.bounded.held_le p.part) line⟩

/-- A keyed vector without a message, read to its end and to the first byte of its key. -/
theorem parse_sound_mac :
    let text := (":Skein-256: 8-bit hash, msgLen = 0 bits, MAC \nMAC key = 2 bytes:\n0a\n0B\n" ++
      "Result:\nff\n----\n").toList
    let v : KnownAnswer := ⟨1, .skein256, 8, 0, [], some [0x0a, 0x0b], [0xff], false⟩
    let p : Pending := ⟨{ v with key := some [0x0a], result := [] }, .key, some 2⟩
    parse fitsAddressSpace text = .ok [v] ∧
    List.Forall₂ Declares (headerLines (Text.lines text)) [v] ∧ Complete (Text.lines text) v ∧
    p.Bounded fitsAddressSpace := by
  intro text v p
  have hparse : parse fitsAddressSpace text = .ok [v] := rfl
  -- After three lines the first byte of the key is in its buffer.
  have hread : (((Text.lines text).take 3).zipIdx 1).foldlM (Reader.step fitsAddressSpace)
      Reader.new = .ok ⟨[], some p⟩ := rfl
  obtain ⟨hsound, hbounded⟩ := parse_sound fitsAddressSpace text
  obtain ⟨hheaders, -, hcomplete⟩ := hsound [v] hparse
  exact ⟨hparse, hheaders, hcomplete v (by simp),
    (hbounded _ _ _ p (List.take_append_drop 3 _).symm hread rfl).1⟩

end SkeinHash.KnownAnswer
