import SkeinHash.Proofs.BitPacking
import SkeinHash.Proofs.TweakPacking
import SkeinHash.Ubi.Blockwise

/-!
# A pass in progress

Between two calls inside a pass, the state of the iteration is determined by what the pass started
from and by the bytes it has taken in, wherever they were cut: so many blocks have been compressed,
the rest of the bytes is pending, and the tweak counts the compressed ones. Bytes that earlier
blocks or passes left in the buffer stand behind the pending ones and are never looked at.

- `Reading`: the relation between a state and the bytes that its pass has taken in
- `Reading.absorb`, `Reading.padPartialByte`: what input does to it
- `Reading.chaining_finishPass`: the end of a pass gives the block-by-block chaining value
-/

namespace SkeinHash.Ubi

variable {s : StateSize} {σ : Type} {c : Compression s σ} {g : σ} {t : BlockType}

/-! ## The blocks of an input -/

namespace Blockwise

/-- One block more is one compression more, of the chaining value before it. -/
theorem compressFirst_succ (data : Bytes) (count : Nat) (padded : Bool) (n : Nat) :
    compressFirst c g t data count padded (n + 1) =
      c.compress (compressFirst c g t data count padded n)
        (fields s t data.length count padded n).pack (block s data n) := by
  unfold compressFirst
  -- The list of the first `n + 1` numbers ends with `n`, and so does the fold over it.
  rw [List.range_succ, List.foldl_append]
  rfl

/-- A block depends on its own bytes only. -/
theorem block_congr {data data' : Bytes} {i : Nat}
    (h : ∀ j < s.blockLen, data[i * s.blockLen + j]? = data'[i * s.blockLen + j]?) :
    block s data i = block s data' i := by
  unfold block
  congr 2
  funext j
  rw [h j.val j.isLt]

/-- The position is taken modulo its limit, so these fields can be packed. -/
theorem position_fields_lt (t : BlockType) (len count : Nat) (padded : Bool) (i : Nat) :
    (fields s t len count padded i).position < Tweak.positionLimit :=
  Nat.mod_lt _ (by decide)

/-- The tweak of a block that is full and not the last depends on its number only. -/
theorem fields_congr {len len' count count' : Nat} {padded padded' : Bool} {i : Nat}
    (hlen : (i + 1) * s.blockLen ≤ len) (hlen' : (i + 1) * s.blockLen ≤ len')
    (hcount : i + 1 < count) (hcount' : i + 1 < count') :
    fields s t len count padded i = fields s t len' count' padded' i := by
  unfold fields
  rw [Nat.min_eq_left hlen, Nat.min_eq_left hlen']
  simp only [Nat.ne_of_lt hcount, Nat.ne_of_lt hcount', decide_false, Bool.and_false]

/-- The chaining value after blocks that are full and not the last depends on their bytes only. -/
theorem compressFirst_congr {data data' : Bytes} {count count' : Nat} {padded padded' : Bool}
    {n : Nat} (hcount : n < count) (hcount' : n < count')
    (hlen : n * s.blockLen ≤ data.length) (hlen' : n * s.blockLen ≤ data'.length)
    (hagree : ∀ k < n * s.blockLen, data[k]? = data'[k]?) :
    compressFirst c g t data count padded n = compressFirst c g t data' count' padded' n := by
  -- One block at a time: the first `n` agree by induction, and block `n` has the same bytes and
  -- the same tweak.
  induction n with
  | zero => rfl
  | succ n ih =>
    have hsucc : (n + 1) * s.blockLen = n * s.blockLen + s.blockLen := Nat.succ_mul _ _
    have hinit := ih (by omega) (by omega) (by omega) (by omega) fun k hk => hagree k (by omega)
    have hblock : block s data n = block s data' n :=
      block_congr fun j hj => hagree _ (by omega)
    rw [compressFirst_succ, compressFirst_succ, hinit, hblock,
      fields_congr hlen hlen' hcount hcount']

/-- What a tweak says after `q` blocks and `len` bytes of the next one. -/
def fieldsAt (s : StateSize) (t : BlockType) (q len : Nat) (final padded : Bool) : Tweak.Fields where
  blockType := t
  position := (q * s.blockLen + len) % Tweak.positionLimit
  first := q = 0
  final := final
  bitPad := padded

/-- `position_fields_lt` for these fields. -/
theorem position_fieldsAt_lt (q len : Nat) (final padded : Bool) :
    (fieldsAt s t q len final padded).position < Tweak.positionLimit :=
  Nat.mod_lt _ (by decide)

/-- Before any input the tweak is the one that a pass starts with. -/
theorem fieldsAt_zero : fieldsAt s t 0 0 false false = Tweak.Fields.new t := by
  unfold fieldsAt
  rw [Nat.zero_mul]
  rfl

/-- Counting `len` bytes of the next block moves the position by as many. -/
theorem fieldsAt_addPosition (q len : Nat) (final padded : Bool) :
    (fieldsAt s t q 0 final padded).apply (.addPosition len) = fieldsAt s t q len final padded := by
  simp only [fieldsAt, Tweak.Fields.apply, Nat.add_zero, Nat.mod_add_mod]

/-- Padding reaches the last byte only. -/
theorem getElem?_padLast (data : Bytes) (v k : Nat) (hk : k + 1 ≠ data.length) :
    (padLast data v)[k]? = data[k]? := by
  unfold padLast
  rw [List.getElem?_modify]
  -- `modify` looks at one place, which exists only in an input that is not empty.
  by_cases hlast : data.length - 1 = k
  · rw [List.getElem?_eq_none (by omega)]
    rfl
  · simp [hlast]

/-- Padding changes a byte and adds none. -/
theorem length_padLast (data : Bytes) (v : Nat) : (padLast data v).length = data.length :=
  List.length_modify _ _ _

end Blockwise

open Blockwise

/-! ## The relation between state and input -/

/-- The pass of type `t` that `u` is in started from the chaining value `g` and has taken in `data`,
    of which `q` blocks are compressed and the rest is pending. `padded` says that `data` ends
    inside a byte. -/
structure Reading (c : Compression s σ) (u : Ubi s σ) (g : σ) (t : BlockType) (data : Bytes)
    (padded : Bool) (q : Nat) : Prop where
  chaining_eq : u.chaining = compressFirst c g t data (q + 1) false q
  tweak_eq : u.tweak = (fieldsAt s t q 0 false padded).pack
  length_eq : data.length = q * s.blockLen + u.numPending
  numPending_le : u.numPending ≤ s.blockLen
  pending_eq : ∀ j (hj : j < s.blockLen), j < u.numPending →
    data[q * s.blockLen + j]? = some u.pending[j]

/-- A full block is held back: nothing is pending only where there was no input. -/
def HeldBack (u : Ubi s σ) (data : Bytes) : Prop := u.numPending = 0 → data = []

/-- A pass starts without input. -/
theorem reading_start (u : Ubi s σ) (t : BlockType) :
    Reading c (u.start t) u.chaining t [] false 0 where
  chaining_eq := rfl
  tweak_eq := by
    rw [fieldsAt_zero, Tweak.pack_new]
    rfl
  length_eq := by simp [start]
  numPending_le := Nat.zero_le _
  pending_eq j hj h := absurd h (Nat.not_lt_zero j)

namespace Reading

variable {u : Ubi s σ} {data : Bytes} {padded : Bool} {q : Nat}

/-- Input that fits into the buffer is held. -/
theorem hold (h : Reading c u g t data false q) {more : Bytes}
    (hfit : u.numPending + more.length ≤ s.blockLen) :
    Reading c (u.hold more) g t (data ++ more) false q where
  chaining_eq := by
    have hlen := h.length_eq
    have happend : (data ++ more).length = data.length + more.length := List.length_append
    -- The compressed blocks lie in front of the new input.
    calc u.chaining = compressFirst c g t data (q + 1) false q := h.chaining_eq
      _ = compressFirst c g t (data ++ more) (q + 1) false q :=
          compressFirst_congr (Nat.lt_succ_self q) (Nat.lt_succ_self q) (by omega) (by omega)
            fun k hk => (List.getElem?_append_left (by omega)).symm
  tweak_eq := h.tweak_eq
  length_eq := by
    rw [List.length_append, h.length_eq, Nat.add_assoc]
    rfl
  numPending_le := hfit
  pending_eq j hj hlt := by
    have hlen := h.length_eq
    change j < u.numPending + more.length at hlt
    change _ = some (u.pending.write u.numPending more)[j]
    rw [Buffer.getElem_write]
    by_cases hold : j < u.numPending
    · -- a byte that was pending before
      rw [if_neg (by omega), List.getElem?_append_left (by omega)]
      exact h.pending_eq j hj hold
    · -- a byte of the new input
      have hnew : j - u.numPending < more.length := by omega
      rw [if_pos (by omega), List.getElem?_append_right (by omega), List.getElem?_eq_getElem hnew,
        Option.getD_some, show q * s.blockLen + j - data.length = j - u.numPending by omega,
        List.getElem?_eq_getElem hnew]

/-- The pending bytes, with zeros behind them, are the block that comes next. -/
theorem words_pending (h : Reading c u g t data padded q) :
    LittleEndian.words (u.pending.clearFrom u.numPending) = block s data q := by
  unfold block
  congr 1
  apply Vector.ext
  intro j hj
  have hlen := h.length_eq
  -- Both sides are vectors of bytes; compared byte by byte, `j` is in the block.
  have hbyte := Vector.getElem_ofFn (f := fun k : Fin (8 * s.words) =>
    data[q * s.blockLen + k.val]?.getD 0) hj
  refine Eq.trans ?_ hbyte.symm
  change _ = data[q * s.blockLen + j]?.getD 0
  rw [Buffer.getElem_clearFrom]
  -- Behind the pending bytes the buffer is cleared, and the input has ended.
  by_cases hlt : j < u.numPending
  · rw [if_pos hlt, h.pending_eq j hj hlt, Option.getD_some]
  · rw [if_neg hlt, List.getElem?_eq_none (by omega), Option.getD_none]

/-- In a full buffer there is nothing to clear. -/
theorem words_pending_of_full (h : Reading c u g t data padded q)
    (hfull : u.numPending = s.blockLen) : LittleEndian.words u.pending = block s data q := by
  -- The buffer that is cleared from its end on is the buffer.
  rw [← h.words_pending]
  congr 1
  apply Vector.ext
  intro j hj
  rw [Buffer.getElem_clearFrom, if_pos (hfull ▸ hj)]

/-- The tweak of the next block when `len` of its bytes are input. -/
theorem addPosition_tweak (h : Reading c u g t data padded q) (len : Nat) :
    u.tweak.addPosition len = (fieldsAt s t q len false padded).pack := by
  rw [h.tweak_eq, ← Tweak.pack_addPosition _ _ (position_fieldsAt_lt ..), fieldsAt_addPosition]

/-- A full block is compressed when more input follows. -/
theorem compressPending (h : Reading c u g t data false q) (hfull : u.numPending = s.blockLen) :
    Reading c (u.compressPending c s.blockLen) g t data false (q + 1) := by
  have hlen := h.length_eq
  have hsucc : (q + 1) * s.blockLen = q * s.blockLen + s.blockLen := Nat.succ_mul _ _
  -- Any count that makes the block not the last will do; `q + 2` is what the next state asks for.
  have hfields : fields s t data.length (q + 2) false q =
      fieldsAt s t q s.blockLen false false := by
    unfold fields fieldsAt
    rw [Nat.min_eq_left (by omega), hsucc, decide_eq_false (by omega : ¬ q + 1 = q + 2)]
    rfl
  constructor
  case chaining_eq =>
    have hchaining : u.chaining = compressFirst c g t data (q + 2) false q :=
      h.chaining_eq.trans (compressFirst_congr (by omega) (by omega) (by omega) (by omega)
        fun _ _ => rfl)
    -- The new chaining value is the next one of `compressFirst`, with the tweak just found.
    change c.compress u.chaining (u.tweak.addPosition s.blockLen) (LittleEndian.words u.pending) = _
    rw [compressFirst_succ, hchaining, h.addPosition_tweak, h.words_pending_of_full hfull, hfields]
  case tweak_eq =>
    -- Behind the first block the first flag is down, and the position is one block further.
    change (u.tweak.addPosition s.blockLen).clearFirst = _
    rw [h.addPosition_tweak, ← Tweak.pack_clearFirst _ (position_fieldsAt_lt ..)]
    unfold fieldsAt
    rw [hsucc, decide_eq_false (Nat.succ_ne_zero q)]
    rfl
  case length_eq =>
    rw [hlen, hfull, hsucc]
    rfl
  case numPending_le => exact Nat.zero_le _
  case pending_eq => exact fun j hj hlt => absurd hlt (Nat.not_lt_zero j)

/-- Input extends what a pass has taken in, and a full block stays held back. -/
theorem absorb (h : Reading c u g t data false q) (more : Bytes) (hheld : HeldBack u data) :
    ∃ q', Reading c (u.absorb c more) g t (data ++ more) false q' ∧
      HeldBack (u.absorb c more) (data ++ more) := by
  -- Between two blocks nothing is pending, so the step asks for more input instead of `hheld`.
  suffices hstep : HeldBack u data ∨ more ≠ [] →
      ∃ q', Reading c (u.absorb c more) g t (data ++ more) false q' ∧
        HeldBack (u.absorb c more) (data ++ more) from hstep (.inl hheld)
  clear hheld
  intro hmore
  induction u, more using Ubi.absorb.induct c generalizing data q with
  | case1 u more room =>
    rename_i hfits
    have hle := h.numPending_le
    have hlen : more.length ≤ room := List.drop_eq_nil_iff.mp hfits
    -- Everything fits: no block is compressed.
    rw [Ubi.absorb, if_pos hfits]
    refine ⟨q, h.hold (by omega), fun hzero => ?_⟩
    change u.numPending + more.length = 0 at hzero
    have hnil : more = [] := List.eq_nil_of_length_eq_zero (by omega)
    rw [hnil, List.append_nil]
    exact hmore.elim (fun hheld => hheld (by omega)) (absurd hnil)
  | case2 u more room =>
    rename_i hrest ih
    have hle := h.numPending_le
    have hlen : room < more.length := Nat.lt_of_not_le (mt List.drop_eq_nil_iff.mpr hrest)
    -- The buffer is filled up and compressed, since there is more input behind it.
    have htake : (more.take room).length = room := List.length_take_of_le (by omega)
    have hheld := h.hold (show u.numPending + (more.take room).length ≤ s.blockLen by omega)
    have hfull : (u.hold (more.take room)).numPending = s.blockLen := by
      change u.numPending + (more.take room).length = s.blockLen
      omega
    have hnext := ih (hheld.compressPending hfull) (.inr hrest)
    rw [List.append_assoc, List.take_append_drop] at hnext
    rw [Ubi.absorb, if_neg hrest]
    exact hnext

/-! ## The end of a pass -/

/-- A partial byte is padded where it stands, in the pending bytes. -/
theorem padPartialByte (h : Reading c u g t data false q) (hpending : 0 < u.numPending) {v : Nat}
    (hpos : 1 ≤ v) (hlt : v ≤ 7) :
    Reading c (u.padPartialByte v) g t (padLast data v) true q := by
  have hlen := h.length_eq
  have hpad := length_padLast data v
  unfold Ubi.padPartialByte
  rw [if_neg (by omega)]
  constructor
  case chaining_eq =>
    -- The compressed blocks end before the byte that is padded.
    exact h.chaining_eq.trans (compressFirst_congr (Nat.lt_succ_self q) (Nat.lt_succ_self q)
      (by omega) (by omega) fun k hk => (getElem?_padLast data v k (by omega)).symm)
  case tweak_eq =>
    change u.tweak.setBitPad = _
    rw [h.tweak_eq, ← Tweak.pack_setBitPad _ (position_fieldsAt_lt ..)]
    rfl
  case length_eq => exact hpad.trans hlen
  case numPending_le => exact h.numPending_le
  case pending_eq =>
    intro j hj hj'
    change j < u.numPending at hj'
    have hbyte := h.pending_eq j hj hj'
    change _ = some ((u.pending.modify (u.numPending - 1) _)[j])
    rw [Buffer.getElem_modify]
    -- The last pending byte is the last byte of the input.
    by_cases hlast : j = u.numPending - 1
    · rw [if_pos hlast, Bits.marker_eq_packByte _ hpos hlt, padLast, List.getElem?_modify, hbyte]
      simp [show data.length - 1 = q * s.blockLen + j by omega]
    · rw [if_neg hlast, getElem?_padLast data v _ (by omega), hbyte]

/-- A held-back pass has one block more than are compressed. -/
theorem blockCount_eq (h : Reading c u g t data padded q) (hheld : HeldBack u data) :
    blockCount s data.length = q + 1 := by
  have hlen := h.length_eq
  have hle := h.numPending_le
  have hB := s.blockLen_pos
  have hsucc : (q + 1) * s.blockLen = q * s.blockLen + s.blockLen := Nat.succ_mul _ _
  have hsucc' : (q + 1 + 1) * s.blockLen = (q + 1) * s.blockLen + s.blockLen := Nat.succ_mul _ _
  unfold blockCount
  rcases Nat.eq_zero_or_pos u.numPending with hzero | hpos
  · -- an empty input has one block
    have hempty : data.length = 0 := by rw [hheld hzero, List.length_nil]
    have hq : q = 0 := (Nat.mul_eq_zero.mp (by omega)).resolve_right (Nat.ne_of_gt hB)
    rw [hempty, hq, Nat.div_eq_of_lt (by omega)]
    rfl
  · -- Between one and `blockLen` bytes are pending, so rounding up gives the block they begin.
    have hdiv : (data.length + s.blockLen - 1) / s.blockLen = q + 1 :=
      Nat.div_eq_of_lt_le (by omega) (by omega)
    rw [hdiv]
    omega

/-- A pass that holds back its last block ends with the block-by-block chaining value. -/
theorem chaining_finishPass (h : Reading c u g t data padded q) (hheld : HeldBack u data) :
    (u.finishPass c).chaining = Blockwise.pass c g t data padded := by
  have hlen := h.length_eq
  have hle := h.numPending_le
  have hsucc : (q + 1) * s.blockLen = q * s.blockLen + s.blockLen := Nat.succ_mul _ _
  -- With the final flag and the pending bytes counted, the tweak is the one of the last block.
  have hfields : fields s t data.length (q + 1) padded q =
      fieldsAt s t q u.numPending true padded := by
    unfold fields fieldsAt
    rw [Nat.min_eq_right (by omega), hlen, decide_eq_true rfl, Bool.and_true]
  have hfinal : (fieldsAt s t q 0 false padded).apply .setFinal = fieldsAt s t q 0 true padded := rfl
  have htweak : u.tweak.setFinal.addPosition u.numPending =
      (fields s t data.length (q + 1) padded q).pack := by
    rw [h.tweak_eq, ← Tweak.pack_setFinal _ (position_fieldsAt_lt ..), hfinal,
      ← Tweak.pack_addPosition _ _ (position_fieldsAt_lt ..), fieldsAt_addPosition, hfields]
  have hchaining : u.chaining = compressFirst c g t data (q + 1) padded q :=
    h.chaining_eq.trans (compressFirst_congr (Nat.lt_succ_self q) (Nat.lt_succ_self q) (by omega)
      (by omega) fun _ _ => rfl)
  calc (u.finishPass c).chaining
      = c.compress u.chaining (u.tweak.setFinal.addPosition u.numPending)
          (LittleEndian.words (u.pending.clearFrom u.numPending)) := rfl
    _ = c.compress (compressFirst c g t data (q + 1) padded q)
          (fields s t data.length (q + 1) padded q).pack (block s data q) := by
        rw [htweak, h.words_pending, hchaining]
    _ = Blockwise.pass c g t data padded := by
        unfold Blockwise.pass
        rw [h.blockCount_eq hheld, compressFirst_succ]

end Reading

end SkeinHash.Ubi
