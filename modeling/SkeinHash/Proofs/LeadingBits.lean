import SkeinHash.Proofs.CallRange

/-!
# Input depends on the declared bits only

Input that is counted in bits may come with bits behind the declared ones, in the last byte and in
further bytes. They are dropped before anything is compressed: the last byte of an input is always
still pending when it is padded, also where it fills up a block.

- `absorb_concat`: the last byte of an input is held
- `padPartialByte_hold`: padding the byte that was held last is holding the padded byte
- `absorbBits_congr`: input with the same leading bits leads to the same state
- `leading_bits_decide`: the calls that count their input in bits
-/

namespace SkeinHash

/-! ## Byte strings with the same leading bits -/

namespace Bits

variable {a b : Bytes} {n : Nat}

/-- Bytes are determined by their bits. -/
theorem ofBytes_inj (h : ofBytes a = ofBytes b) : a = b := by
  rw [← pack_ofBytes a, h, pack_ofBytes]

/-- Leading bits that end on a byte boundary determine the bytes that hold them. -/
theorem take_eq_of_leading_eq (halign : n % 8 = 0) (h : leading a n = leading b n) :
    a.take (byteCount n) = b.take (byteCount n) := by
  rw [leading_of_aligned a halign, leading_of_aligned b halign] at h
  exact ofBytes_inj h

/-- Leading bits that end inside a byte determine the bytes before it, and those bits of it that
    count. -/
theorem exists_last_of_partial (hpartial : n % 8 ≠ 0) (hlen : n ≤ 8 * a.length) :
    ∃ (whole : Bytes) (last : UInt8), a.take (byteCount n) = whole ++ [last] ∧
      ofBytes whole = (leading a n).take (n - n % 8) ∧
      (ofByte last).take (n % 8) = (leading a n).drop (n - n % 8) := by
  obtain ⟨last, hbytes, hbits⟩ := leading_eq_of_partial hpartial hlen
  have hwhole : (ofBytes (a.take (n / 8))).length = n - n % 8 := by
    rw [length_ofBytes, List.length_take_of_le (by omega)]
    omega
  refine ⟨a.take (n / 8), last, hbytes, ?_, ?_⟩
  · rw [hbits, List.take_left' hwhole]
  · rw [hbits, List.drop_left' hwhole]

end Bits

/-! ## The byte that is held last -/

/-- Writing two pieces one behind the other is writing them together. -/
theorem Buffer.write_append {n : Nat} (b : Buffer n) (start : Nat) (first second : Bytes) :
    b.write start (first ++ second) =
      (b.write start first).write (start + first.length) second := by
  induction first generalizing b start with
  | nil => rfl
  | cons x first ih =>
    rw [List.cons_append, write, write, ih, List.length_cons, Nat.add_right_comm, Nat.add_assoc]

/-- Changing the byte that was written last is writing the changed byte. -/
theorem Buffer.modify_write_singleton {n : Nat} (b : Buffer n) (i : Nat) (x : UInt8)
    (f : UInt8 → UInt8) : (b.write i [x]).modify i f = b.write i [f x] := by
  apply Vector.ext
  intro j hj
  rw [getElem_modify, getElem_write, getElem_write]
  -- Before, at and behind the byte that was written.
  rcases Nat.lt_trichotomy j i with hbefore | rfl | hbehind
  · rw [if_neg (by omega), if_neg (by omega), if_neg (by omega)]
  · rw [if_pos rfl, if_pos (Nat.le_refl _), if_pos (Nat.le_refl _), Nat.sub_self]
    rfl
  · -- one byte reaches no further
    have hnone : ∀ y : UInt8, ([y] : Bytes)[j - i]? = none := fun y =>
      List.getElem?_eq_none (show 1 ≤ j - i by omega)
    rw [if_neg (by omega), if_pos (by omega), if_pos (by omega), hnone, hnone]

namespace Ubi

variable {s : StateSize} {σ : Type} {c : Compression s σ}

/-- Holding two inputs one after the other is holding them together. -/
theorem hold_append (u : Ubi s σ) (first second : Bytes) :
    u.hold (first ++ second) = (u.hold first).hold second := by
  unfold hold
  rw [Buffer.write_append, List.length_append, Nat.add_assoc]

/-- Where the bytes before the last one already fill the block, it is compressed before the last
    one comes. -/
theorem absorb_concat_of_full {u : Ubi s σ} {data : Bytes}
    (hfull : s.blockLen - u.numPending ≤ data.length) (x : UInt8) :
    u.absorb c (data ++ [x]) =
      ((u.hold (data.take (s.blockLen - u.numPending))).compressPending c s.blockLen).absorb c
        (data.drop (s.blockLen - u.numPending) ++ [x]) := by
  have hmore : (data ++ [x]).drop (s.blockLen - u.numPending) ≠ [] := by
    rw [Ne, List.drop_eq_nil_iff, List.length_append, List.length_singleton]
    omega
  rw [absorb, if_neg hmore, List.take_append_of_le_length hfull,
    List.drop_append_of_le_length hfull]

/-- The last byte of an input is held, and what has happened before does not depend on it. -/
theorem absorb_concat (c : Compression s σ) (u : Ubi s σ) (data : Bytes) :
    ∃ u' : Ubi s σ, u'.numPending < s.blockLen ∧
      ∀ x, u.absorb c (data ++ [x]) = u'.hold [x] := by
  have hB := s.blockLen_pos
  -- The induction is along the input without its last byte.
  induction u, data using Ubi.absorb.induct c with
  | case1 u data room =>
    rename_i hfits
    have hlen : data.length ≤ room := List.drop_eq_nil_iff.mp hfits
    rcases Nat.lt_or_eq_of_le hlen with hlt | hfull
    · -- there is room for one byte more
      refine ⟨u.hold data, show u.numPending + data.length < s.blockLen by omega, fun x => ?_⟩
      rw [← hold_append, absorb_of_fits]
      rw [List.length_append, List.length_singleton]
      omega
    · -- the last byte is the first one of a block
      refine ⟨(u.hold (data.take room)).compressPending c s.blockLen, hB, fun x => ?_⟩
      rw [absorb_concat_of_full (Nat.le_of_eq hfull.symm), hfits, List.nil_append, absorb_of_fits]
      exact show 0 + 1 ≤ s.blockLen by omega
  | case2 u data room =>
    rename_i hrest ih
    have hlen : room < data.length := Nat.lt_of_not_le (mt List.drop_eq_nil_iff.mpr hrest)
    obtain ⟨u', hroom, hu'⟩ := ih
    exact ⟨u', hroom, fun x => (absorb_concat_of_full (Nat.le_of_lt hlen) x).trans (hu' x)⟩

/-- Padding the byte that was held last is holding the padded byte. -/
theorem padPartialByte_hold (u : Ubi s σ) (x : UInt8) {v : Nat} (hpos : 1 ≤ v) (hlt : v ≤ 7) :
    (u.hold [x]).padPartialByte v =
      { u.hold [Bits.packByte ((Bits.ofByte x).take v ++ [true])] with
        tweak := u.tweak.setBitPad } := by
  have hpending : (u.hold [x]).numPending ≠ 0 := Nat.succ_ne_zero _
  have hbuffer := Buffer.modify_write_singleton u.pending u.numPending x fun last =>
    (last &&& -((0x80 : UInt8) >>> UInt8.ofNat v)) ||| ((0x80 : UInt8) >>> UInt8.ofNat v)
  -- The mask and the marker leave the bits that count, a one bit and zeros.
  rw [Bits.marker_eq_packByte x hpos hlt] at hbuffer
  unfold padPartialByte
  rw [if_neg hpending]
  exact congrArg (fun pending => { u.hold [x] with pending, tweak := u.tweak.setBitPad }) hbuffer

/-! ## Input that is counted in bits -/

/-- The last pending byte holds `bits`, a one bit and zeros. -/
def EndsWithPadded (u : Ubi s σ) (bits : Bits) : Prop :=
  ∃ n : Fin s.blockLen, u.numPending = n + 1 ∧ u.pending[n] = Bits.packByte (bits ++ [true])

/-- Input that ends inside a byte leaves this byte pending, as its leading bits, a one bit and
    zeros. -/
theorem exists_absorbBits_concat (c : Compression s σ) (u : Ubi s σ) (whole : Bytes)
    {bitCount : Nat} (hpartial : bitCount % 8 ≠ 0) :
    ∃ u' : Ubi s σ, u'.numPending < s.blockLen ∧
      ∀ x, u.absorbBits c (whole ++ [x]) bitCount =
        { u'.hold [Bits.packByte ((Bits.ofByte x).take (bitCount % 8) ++ [true])] with
          tweak := u'.tweak.setBitPad } := by
  obtain ⟨u', hroom, hu'⟩ := absorb_concat c u whole
  refine ⟨u', hroom, fun x => ?_⟩
  unfold absorbBits
  rw [if_neg hpartial, hu', padPartialByte_hold u' x (by omega) (by omega)]

/-- Input with the same leading bits leads to the same state. -/
theorem absorbBits_congr (u : Ubi s σ) {a b : Bytes} {bitCount : Nat}
    (ha : bitCount ≤ 8 * a.length) (hb : bitCount ≤ 8 * b.length)
    (h : Bits.leading a bitCount = Bits.leading b bitCount) :
    u.absorbBits c (a.take (byteCount bitCount)) bitCount =
      u.absorbBits c (b.take (byteCount bitCount)) bitCount := by
  -- On a byte boundary the bytes are the same; otherwise the last ones may differ.
  by_cases halign : bitCount % 8 = 0
  · rw [Bits.take_eq_of_leading_eq halign h]
  · obtain ⟨whole, x, hax, hwhole, hx⟩ := Bits.exists_last_of_partial halign ha
    obtain ⟨whole', y, hby, hwhole', hy⟩ := Bits.exists_last_of_partial halign hb
    obtain rfl : whole = whole' := Bits.ofBytes_inj (by rw [hwhole, hwhole', h])
    obtain ⟨u', _, hu'⟩ := exists_absorbBits_concat c u whole halign
    rw [hax, hby, hu', hu', hx, hy, h]

/-- Input that ends inside a byte is padded where it stands. -/
theorem endsWithPadded_absorbBits (u : Ubi s σ) {data : Bytes} {bitCount : Nat}
    (hpartial : bitCount % 8 ≠ 0) (hlen : bitCount ≤ 8 * data.length) :
    (u.absorbBits c (data.take (byteCount bitCount)) bitCount).EndsWithPadded
      ((Bits.leading data bitCount).drop (bitCount - bitCount % 8)) := by
  obtain ⟨whole, x, hx, _, hbits⟩ := Bits.exists_last_of_partial hpartial hlen
  obtain ⟨u', hroom, hu'⟩ := exists_absorbBits_concat c u whole hpartial
  rw [hx, hu', ← hbits]
  refine ⟨⟨u'.numPending, hroom⟩, rfl, ?_⟩
  -- The padded byte stands where the last one was held.
  change (u'.pending.write u'.numPending [_])[u'.numPending] = _
  rw [Buffer.getElem_write, if_pos (Nat.le_refl _), Nat.sub_self]
  rfl

end Ubi

/-! ## Calls that count their input in bits -/

section Calls

variable {s : StateSize} {data : Bytes} {bitCount : Nat}

/-- Where there are enough bits, the bytes that hold the declared ones are taken. -/
theorem leadingBytes_of_le (h : bitCount ≤ 8 * data.length) :
    leadingBytes data bitCount = .ok (data.take (byteCount bitCount)) :=
  if_pos ((byteCount_le_iff _ _).mpr h)

/-- Where there are too few bits, nothing is taken. -/
theorem leadingBytes_of_lt (h : 8 * data.length < bitCount) :
    leadingBytes data bitCount = .error .bitCount :=
  if_neg fun hle => Nat.not_le_of_lt h ((byteCount_le_iff _ _).mp hle)

/-- A pass is refused exactly if its input has fewer bits than it declares. -/
theorem ubi_eq_error_iff (chaining : Block s) (t : BlockType) :
    ubi chaining t data bitCount = .error .bitCount ↔ 8 * data.length < bitCount := by
  unfold ubi
  rcases Nat.lt_or_ge (8 * data.length) bitCount with hshort | hlen
  · simp only [leadingBytes_of_lt hshort, hshort]
  · simp only [leadingBytes_of_le hlen, reduceCtorEq, Nat.not_lt_of_ge hlen]

namespace Context

variable {ctx : Context s}

/-- A context that accepts input takes the bytes that hold the declared bits. -/
theorem updateBits_of_le (haccept : ctx.checkAccepting = .ok ()) (h : bitCount ≤ 8 * data.length) :
    ctx.updateBits data bitCount = (.ok (), { ctx with
      state := ctx.state.absorbBits (.threefish s) (data.take (byteCount bitCount))
        bitCount }) := by
  simp only [updateBits, haccept, leadingBytes_of_le h]

/-- So is input to a context. -/
theorem updateBits_eq_error_iff (haccept : ctx.checkAccepting = .ok ()) :
    (ctx.updateBits data bitCount).1 = .error (.parameter .bitCount) ↔
      8 * data.length < bitCount := by
  rcases Nat.lt_or_ge (8 * data.length) bitCount with hshort | hlen
  · simp only [updateBits, haccept, leadingBytes_of_lt hshort, hshort]
  · simp only [updateBits_of_le haccept hlen, reduceCtorEq, Nat.not_lt_of_ge hlen]

end Context

/-- **The declared bits decide.** A pass, or a context that accepts input, refuses a number of bits
    exactly if the input has fewer, and the bytes that hold so many bits are counted without leaving
    a word. Inputs with the same leading bits, whatever stands behind them, bring the pass and the
    context to the same state. If they end inside a byte, it is still pending there, as these bits,
    a one bit and zeros. -/
theorem leading_bits_decide (s : StateSize) (bitCount : Nat) :
    (bitCount < UInt64.size → RangeChecked.byteCount? bitCount = some (byteCount bitCount)) ∧
    (∀ data : Bytes,
      (∀ (chaining : Block s) (t : BlockType),
        ubi chaining t data bitCount = .error .bitCount ↔ 8 * data.length < bitCount) ∧
      ∀ ctx : Context s, ctx.checkAccepting = .ok () →
        ((ctx.updateBits data bitCount).1 = .error (.parameter .bitCount) ↔
          8 * data.length < bitCount)) ∧
    ∀ a b : Bytes, bitCount ≤ 8 * a.length → bitCount ≤ 8 * b.length →
      Bits.leading a bitCount = Bits.leading b bitCount →
      let last := (Bits.leading a bitCount).drop (bitCount - bitCount % 8)
      (∀ (chaining : Block s) (t : BlockType), ∃ u : Ubi s (Block s),
        ubi chaining t a bitCount = .ok (u.finishPass (.threefish s)).chaining ∧
        ubi chaining t b bitCount = .ok (u.finishPass (.threefish s)).chaining ∧
        (bitCount % 8 ≠ 0 → u.EndsWithPadded last)) ∧
      ∀ ctx : Context s, ctx.checkAccepting = .ok () → ∃ ctx' : Context s,
        ctx.updateBits a bitCount = (.ok (), ctx') ∧ ctx.updateBits b bitCount = (.ok (), ctx') ∧
        (bitCount % 8 ≠ 0 → ctx'.state.EndsWithPadded last) := by
  refine ⟨RangeChecked.byteCount?_eq, fun data =>
    ⟨ubi_eq_error_iff, fun ctx => Context.updateBits_eq_error_iff⟩, ?_⟩
  intro a b ha hb h last
  -- Both inputs bring any state of the iteration to the same state.
  have hsame := fun u : Ubi s (Block s) => Ubi.absorbBits_congr (c := .threefish s) u ha hb h
  have hlast := fun (u : Ubi s (Block s)) (hpartial : bitCount % 8 ≠ 0) =>
    Ubi.endsWithPadded_absorbBits (c := .threefish s) u hpartial ha
  constructor
  · intro chaining t
    refine ⟨_, ?_, ?_, hlast ((Ubi.ofChaining (.threefish s) chaining).start t)⟩
    · simp only [ubi, leadingBytes_of_le ha]
    · simp only [ubi, leadingBytes_of_le hb, hsame]
  · intro ctx haccept
    refine ⟨_, Context.updateBits_of_le haccept ha, ?_, hlast ctx.state⟩
    rw [Context.updateBits_of_le haccept hb, hsame]

/-- The last byte of a full block, of which five bits count, with other bits and a byte behind. -/
theorem leading_bits_decide_full_block :
    let a : Bytes := [0xff]
    let b : Bytes := [0xf8, 0x12]
    let ctx := ((Context.new .skein256).run [.init 256, .update (List.replicate 31 0x61)]).2
    (5 ≤ 8 * a.length ∧ 5 ≤ 8 * b.length ∧ Bits.leading a 5 = Bits.leading b 5 ∧
      ctx.checkAccepting = .ok () ∧ 5 < UInt64.size ∧ 5 % 8 ≠ 0) ∧
    ∃ ctx' : Context .skein256, ctx.updateBits a 5 = (.ok (), ctx') ∧
      ctx.updateBits b 5 = (.ok (), ctx') ∧
      ctx'.state.EndsWithPadded [true, true, true, true, true] := by
  intro a b ctx
  have hleading : Bits.leading a 5 = Bits.leading b 5 := by decide
  -- A whole number of bytes has come so far, so more is accepted.
  have haccept : ctx.checkAccepting = .ok () := by
    obtain ⟨ctx₁, hinit, _, habsorbing₁⟩ :=
      (Context.new .skein256).initKeyed_of_pos [] (show 256 ≠ 0 by decide)
    obtain ⟨ctx₂, hupdate, _, habsorbing₂⟩ := habsorbing₁.update rfl (List.replicate 31 0x61)
    have hctx : ctx = ctx₂ := by
      simp only [ctx, Context.run, Context.apply_init hinit, Context.apply_update hupdate]
    rw [hctx, habsorbing₂.checkAccepting_eq, if_pos (Bits.length_append_ofBytes_mod rfl _)]
  obtain ⟨ctx', ha, hb, hlast⟩ :=
    ((leading_bits_decide .skein256 5).2.2 a b (by decide) (by decide) hleading).2 ctx haccept
  exact ⟨⟨by decide, by decide, hleading, haccept, by decide, by decide⟩, ctx', ha, hb,
    hlast (by decide)⟩

end Calls

end SkeinHash
