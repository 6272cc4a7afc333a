import SkeinHash.Proofs.ReaderMoves
import SkeinHash.Proofs.WrittenLines

/-!
# Written vectors are read back

However a list of known answers is laid out, in any order of the parts, any cut of the data into
lines and with anything but headers between the vectors, a reader gives the same list back, if its
buffers can be reserved.

- `readLines_dataLines`: data is appended to the open part
- `readLines_parts`: the parts are filled one by one
- `readLines_vector`, `readLines_file`: a vector, and all vectors of a file
- `parse_joinLines`: the text of a file
-/

namespace SkeinHash.KnownAnswer

/-- The buffers of a vector can be reserved. -/
structure Reservable (canReserve : Nat → Bool) (v : KnownAnswer) : Prop where
  message : canReserve (byteCount v.messageBits) = true
  result : canReserve (byteCount v.outputBits) = true
  key : ∀ key, v.key = some key → canReserve key.length = true

/-- A vector in progress of which some parts have been read. -/
def Pending.ofParts (v : KnownAnswer) (done : List Part) (part : Part) : Pending where
  vector :=
    { v with
      message := if .message ∈ done then v.message else []
      key := v.key.map fun key => if .key ∈ done then key else []
      result := if .result ∈ done then v.result else [] }
  part
  keyLength := if .key ∈ done then v.key.map List.length else none

namespace Reader

variable {canReserve : Nat → Bool} {v : KnownAnswer}

/-! ## Parts -/

/-- Blank lines and remarks inside of a vector are passed over. -/
theorem readLines_idle {text : List Char}
    (h : Line.ofText text = .blank ∨ Line.ofText text = .noData) (p : Pending) (number : Nat)
    (vectors : List KnownAnswer) (rest : List (List Char)) :
    readLines canReserve number (text :: rest) ⟨vectors, some p⟩ =
      readLines canReserve (number + 1) rest ⟨vectors, some p⟩ :=
  readLines_cons (.idle h)

/-- Data is appended to the open part. -/
theorem readLines_dataLines {lines : List (List Char)} {data : Bytes} (h : DataLines lines data)
    {p : Pending} (hopen : p.isOpen = true)
    (hroom : (p.held p.part).length + data.length ≤ p.reserved p.part)
    (number : Nat) (vectors : List KnownAnswer) :
    readLines canReserve number lines ⟨vectors, some p⟩ =
      .ok ⟨vectors, some (p.fill p.part (p.held p.part ++ data))⟩ := by
  -- The induction is on the lines; what is held grows with each of them, and the room is for all.
  induction h generalizing p number with
  | nil => simp [Pending.fill_held hopen]
  | blank hblank _ ih => rw [readLines_idle (.inl (Line.ofText_blank hblank)), ih hopen hroom]
  | noData hnone _ ih => rw [readLines_idle (.inr (Line.ofText_noData hnone)), ih hopen hroom]
  | @data text rest first data htext _ ih =>
    rw [List.length_append] at hroom
    rcases Line.ofText_dataLine htext with ⟨hline, rfl⟩ | ⟨bytes, hline, hbytes⟩
    · -- Nothing but white space: as a blank line.
      rw [readLines_idle (.inl hline), ih hopen (by simpa using hroom)]
      rfl
    · have happend : appendData (p.reserved p.part) (p.held p.part) bytes =
          (.ok (), p.held p.part ++ first) := appendData_of_dataLine hbytes (by omega)
      have hheld : (p.fill p.part (p.held p.part ++ first)).held p.part = p.held p.part ++ first :=
        Pending.held_fill (Pending.part_ne_none hopen) _
      have hmove : Move canReserve number (Line.ofText text) ⟨vectors, some p⟩
          ⟨vectors, some (p.fill p.part (p.held p.part ++ first))⟩ := by
        rw [hline]
        exact .data hopen happend
      have hrest : (p.held p.part ++ first).length + data.length ≤ p.reserved p.part := by
        rw [List.length_append]
        omega
      rw [readLines_cons hmove, ih (Pending.isOpen_fill hopen _) (by simpa [hheld] using hrest)]
      simp [hheld]

/-- A heading opens a part of which nothing has been read, and the data below it fills the part. -/
theorem readLines_heading {heading : List Char} {rest : List (List Char)} {data : Bytes}
    {number : Nat} {vectors : List KnownAnswer} {before opened : Pending}
    (hmove : Move canReserve number (Line.ofText heading) ⟨vectors, some before⟩
      ⟨vectors, some opened⟩)
    (hopen : opened.isOpen = true) (hempty : opened.held opened.part = [])
    (hroom : data.length ≤ opened.reserved opened.part) (hdata : DataLines rest data) :
    readLines canReserve number (heading :: rest) ⟨vectors, some before⟩ =
      .ok ⟨vectors, some (opened.fill opened.part data)⟩ := by
  rw [readLines_cons hmove, readLines_dataLines hdata hopen (by simpa [hempty] using hroom), hempty,
    List.nil_append]

/-- The lines of a part fill it. -/
theorem readLines_part (hv : v.WellFormed) (hreserve : Reservable canReserve v) {part : Part}
    {lines : List (List Char)} (h : PartLines v part lines) {done : List Part} (hnew : part ∉ done)
    (last : Part) (number : Nat) (vectors : List KnownAnswer) :
    readLines canReserve number lines ⟨vectors, some (.ofParts v done last)⟩ =
      .ok ⟨vectors, some (.ofParts v (done ++ [part]) part)⟩ := by
  cases h with
  | message hdata =>
    have hmove : Move canReserve number (Line.ofText "Message data:".toList)
        ⟨vectors, some (.ofParts v done last)⟩ ⟨vectors, some (.ofParts v done .message)⟩ := by
      rw [Line.ofText_messageHeading]
      exact .message
    have hempty : (Pending.ofParts v done .message).held .message = [] := if_neg hnew
    rw [readLines_heading hmove rfl hempty (Nat.le_of_eq hv.message_length) hdata]
    simp [Pending.ofParts, Pending.fill]
  | result hdata =>
    have hmove : Move canReserve number (Line.ofText "Result:".toList)
        ⟨vectors, some (.ofParts v done last)⟩ ⟨vectors, some (.ofParts v done .result)⟩ := by
      rw [Line.ofText_resultHeading]
      exact .result
    have hempty : (Pending.ofParts v done .result).held .result = [] := if_neg hnew
    rw [readLines_heading hmove rfl hempty (Nat.le_of_eq hv.result_length) hdata]
    simp [Pending.ofParts, Pending.fill]
  | @key key rest hkey hdata =>
    -- The heading is the first one of a key, since the part is new.
    obtain ⟨opened, hopened⟩ : ∃ p, p =
      (⟨(Pending.ofParts v done last).vector, .key, some key.length⟩ : Pending) := ⟨_, rfl⟩
    have hmove : Move canReserve number (.keyHeading (some key.length))
        ⟨vectors, some (.ofParts v done last)⟩ ⟨vectors, some opened⟩ := by
      rw [hopened]
      exact .key (by simp [Pending.ofParts, hkey]) (if_neg hnew) (hreserve.key key hkey)
    rw [← Line.ofText_keyHeading (hv.key_length key hkey)] at hmove
    have hopen : opened.isOpen = true := by simp [hopened, Pending.isOpen, Pending.ofParts, hkey]
    have hempty : opened.held opened.part = [] := by
      simp [hopened, Pending.held, Pending.ofParts, hkey, hnew]
    have hroom : key.length ≤ opened.reserved opened.part := by simp [hopened, Pending.reserved]
    rw [readLines_heading hmove hopen hempty hroom hdata, hopened]
    simp [Pending.ofParts, Pending.fill, hkey]

/-- The parts are filled one by one, each of them once. -/
theorem readLines_parts (hv : v.WellFormed) (hreserve : Reservable canReserve v)
    {parts : List Part} {lines : List (List Char)} (h : PartsLines v parts lines)
    {done : List Part} (hnodup : (done ++ parts).Nodup) (last : Part) (number : Nat)
    (vectors : List KnownAnswer) :
    ∃ last', readLines canReserve number lines ⟨vectors, some (.ofParts v done last)⟩ =
      .ok ⟨vectors, some (.ofParts v (done ++ parts) last')⟩ := by
  induction h generalizing done last number with
  | nil => exact ⟨last, by simp⟩
  | @cons part parts first rest hfirst _ ih =>
    -- No part is written twice, so nothing has been read of this one.
    have hnew : part ∉ done := fun hmem =>
      (List.nodup_append.1 hnodup).2.2 part hmem part (by simp) rfl
    rw [List.append_cons] at hnodup ⊢
    obtain ⟨last', hrest⟩ := ih hnodup part (number + first.length)
    exact ⟨last', by
      rw [readLines_append (readLines_part hv hreserve hfirst hnew last number vectors), hrest]⟩

/-! ## Vectors -/

/-- So are any number of blank lines. -/
theorem readLines_blanks {blanks : List (List Char)} (h : ∀ b ∈ blanks, BlankLine b)
    (p : Pending) (number : Nat) (vectors : List KnownAnswer) :
    readLines canReserve number blanks ⟨vectors, some p⟩ = .ok ⟨vectors, some p⟩ := by
  induction blanks generalizing number with
  | nil => rfl
  | cons text rest ih =>
    rw [readLines_idle (.inl (Line.ofText_blank (h text (by simp)))),
      ih fun b hb => h b (by simp [hb])]

/-- At its header nothing has been read of a vector. -/
theorem fresh_eq_ofParts (v : KnownAnswer) :
    Pending.fresh v.line ⟨v.size, v.outputBits, v.messageBits, v.key.isSome, v.isTree⟩ =
      .ofParts v [] .none := by
  cases hkey : v.key <;> simp [Pending.fresh, Pending.ofParts, hkey]

theorem nodup_parts (v : KnownAnswer) : v.parts.Nodup := by
  cases hkey : v.key <;> simp [parts, hkey]

/-- When all parts have been read, in whatever order, the vector is the written one. -/
theorem vector_ofParts {order : List Part} (h : order.Perm v.parts) (last : Part) :
    (Pending.ofParts v order last).vector = v := by
  obtain ⟨line, size, outputBits, messageBits, message, key, result, isTree⟩ := v
  -- A part is filled if it is in the order, which has all parts.
  cases key <;> simp [Pending.ofParts, h.mem_iff, parts]

/-- When all parts have been read, the lengths are right. -/
theorem lengthFault?_ofParts (hv : v.WellFormed) {order : List Part} (h : order.Perm v.parts)
    (last : Part) : (Pending.ofParts v order last).lengthFault? = none := by
  have hlength : (Pending.ofParts v order last).keyLength = v.key.map List.length := by
    cases hkey : v.key <;> simp [Pending.ofParts, h.mem_iff, parts, hkey]
  rw [Pending.lengthFault?_eq_none_iff, vector_ofParts h, hlength]
  exact ⟨hv.message_length, hv.result_length, fun key hkey => by rw [hkey, Option.map_some]⟩

/-- The lines of a vector are read as the vector. -/
theorem readLines_vector (hv : v.WellFormed) (hreserve : Reservable canReserve v)
    {lines : List (List Char)} (h : VectorLines v lines) (vectors : List KnownAnswer) :
    readLines canReserve v.line lines ⟨vectors, none⟩ = .ok ⟨vectors ++ [v], none⟩ := by
  obtain ⟨blanks, order, body, rule, hblanks, horder, hbody, hrule, rfl⟩ := h
  have hheader : Move canReserve v.line (Line.ofText (headerText v)) ⟨vectors, none⟩
      ⟨vectors, some (.ofParts v [] .none)⟩ := by
    rw [Line.ofText_headerText hv, ← fresh_eq_ofParts]
    exact .header hreserve.message hreserve.result
  have hnodup : ([] ++ order).Nodup := horder.nodup_iff.2 (nodup_parts v)
  obtain ⟨last, hparts⟩ := readLines_parts hv hreserve hbody hnodup .none
    (v.line + 1 + blanks.length) vectors
  -- The rule finds all parts filled.
  have hend : Move canReserve (v.line + 1 + blanks.length + body.length) (Line.ofText rule)
      ⟨vectors, some (.ofParts v order last)⟩
      ⟨vectors ++ [(Pending.ofParts v order last).vector], none⟩ := by
    rw [Line.ofText_rule hrule]
    exact .rule (lengthFault?_ofParts hv horder last)
  rw [vector_ofParts horder] at hend
  rw [List.cons_append, List.cons_append, readLines_cons hheader, List.append_assoc,
    readLines_append (readLines_blanks hblanks _ _ vectors), readLines_append hparts,
    List.nil_append, readLines_cons hend, readLines_nil]

/-! ## Files -/

/-- The vectors of a file are read in order, and what stands between them is skipped. -/
theorem readLines_file {number : Nat} {lines : List (List Char)} {written : List KnownAnswer}
    (h : FileLines number lines written)
    (hwritten : ∀ v ∈ written, v.WellFormed ∧ Reservable canReserve v)
    (vectors : List KnownAnswer) :
    readLines canReserve number lines ⟨vectors, none⟩ = .ok ⟨vectors ++ written, none⟩ := by
  -- The induction is on the layout, for any vectors that have been read before.
  induction h generalizing vectors with
  | nil => simp
  | @other number text rest written hother _ ih =>
    have hline := Line.isHeader_eq_false_iff.1 hother
    rw [readLines_cons (.skip hline), ih hwritten]
  | @vector number v first rest written hfirst hnumber _ ih =>
    obtain ⟨hv, hreserve⟩ := hwritten v (by simp)
    subst hnumber
    rw [readLines_append (readLines_vector hv hreserve hfirst vectors),
      ih fun w hw => hwritten w (by simp [hw])]
    simp

end Reader

/-! ## Texts -/

/-- **Written vectors are read back.** A text that a list of known answers is written in, with either
    kind of line ending and with or without one at the end, is read as exactly this list if all
    buffers can be reserved. -/
theorem parse_joinLines {canReserve : Nat → Bool} {vectors : List KnownAnswer}
    {ended : List (List Char × Text.Ending)} {last : List Char}
    (hvectors : ∀ v ∈ vectors, v.WellFormed ∧ Reservable canReserve v)
    (hended : ∀ l ∈ ended, l.2.Fits l.1) (hlast : '\n' ∉ last)
    (hlines : FileLines 1 (ended.map (·.1) ++ if last = [] then [] else [last]) vectors) :
    parse canReserve (Text.joinLines ended ++ last) = .ok vectors := by
  have hread := Reader.readLines_file hlines hvectors []
  rw [parse_eq, Text.lines_joinLines_append hended hlast]
  -- From a new reader, that is outside of vectors and with none so far.
  change (Reader.readLines canReserve 1 _ ⟨[], none⟩ >>= Reader.close) = _
  rw [hread]
  rfl

/-- A keyed tree vector with its parts out of order, between other lines. -/
theorem parse_joinLines_tree_mac :
    let v : KnownAnswer :=
      ⟨2, .skein256, 12, 9, [0x2e, 0x80], some [0x82, 0xfa], [0xa5, 0x50], true⟩
    let ended : List (List Char × Text.Ending) :=
      [("Skein".toList, .crlf),
        (":Skein-256: 12-bit hash, msgLen = 9 bits, data = 'random', Tree, MAC".toList, .lf),
        (" ".toList, .lf), ("Result:".toList, .crlf), ("\ta5 50".toList, .lf),
        ("MAC key = 2 bytes:".toList, .lf), ("82".toList, .lf), ([], .crlf), ("Fa ".toList, .lf),
        ("Message data:".toList, .lf), (" 2e80".toList, .crlf), ("-----".toList, .lf)]
    parse fitsAddressSpace (Text.joinLines ended ++ "end".toList) = .ok [v] := by
  intro v ended
  have hwell : v.WellFormed := ⟨by decide, by decide, by decide, by decide, by simp [v, UInt64.size]⟩
  have hreserve : Reservable fitsAddressSpace v := ⟨by decide, by decide, by simp [v]; decide⟩
  -- The parts in the order in which they are written, with their data lines.
  have hresult : PartLines v .result ["Result:".toList, "\ta5 50".toList] :=
    .result (@DataLines.data _ _ [0xa5, 0x50] _ (@dataLine_of_readData 2 _ _ rfl) .nil)
  have hkey : PartLines v .key
      ["MAC key = 2 bytes:".toList, "82".toList, [], "Fa ".toList] :=
    @PartLines.key v [0x82, 0xfa] _ rfl
      (@DataLines.data _ _ [0x82] _ (@dataLine_of_readData 1 _ _ rfl)
        (.blank rfl (@DataLines.data _ _ [0xfa] _ (@dataLine_of_readData 1 _ _ rfl) .nil)))
  have hmessage : PartLines v .message ["Message data:".toList, " 2e80".toList] :=
    .message (@DataLines.data _ _ [0x2e, 0x80] _ (@dataLine_of_readData 2 _ _ rfl) .nil)
  have hbody := PartsLines.cons hresult (.cons hkey (.cons hmessage .nil))
  have hheader : headerText v =
    ":Skein-256: 12-bit hash, msgLen = 9 bits, data = 'random', Tree, MAC".toList := by decide
  -- The order is a permutation of the parts of a keyed vector.
  have hvector : VectorLines v ((ended.map (·.1)).tail) := by
    refine ⟨[" ".toList], _, _, "-----".toList, ?_, ?_, hbody, ⟨1, rfl⟩, by rw [hheader]; rfl⟩
    · intro b hb
      rw [List.mem_singleton.1 hb]
      rfl
    · decide
  have hlines : FileLines 1 (ended.map (·.1) ++ ["end".toList]) [v] :=
    .other rfl (@FileLines.vector 2 v _ ["end".toList] [] hvector rfl (.other rfl .nil))
  exact parse_joinLines (by simp [hwell, hreserve]) (by simp [ended, Text.Ending.Fits]) (by decide)
    hlines

end SkeinHash.KnownAnswer
