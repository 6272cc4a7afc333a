import SkeinHash.Proofs.BitPass

/-!
# The passes of a hash

A message starts from the chaining value of the passes over the key and the configuration, and its
own chaining value is what every block of the output is made from. None of these passes looks at the
state that it finds, and none touches the saved chaining value.

- `chaining_pass`: a whole pass, from any state
- `hasRead_init`, `hasRead_restore`: where a message starts
- `finish_fst`: the output of a message
- `saved_init`, `saved_absorbBits`, `saved_finish`: the saved chaining value stays
-/

namespace SkeinHash.Ubi

open Blockwise

variable {s : StateSize} {σ : Type} {c : Compression s σ}

/-! ## The chaining values of a hash -/

namespace Blockwise

/-- The chaining value that a message starts from. -/
def keyed (c : Compression s σ) (key : Bytes) (bits : Nat) : σ :=
  let afterKey := if key = [] then c.initial else pass c c.initial .key key false
  pass c afterKey .config (Config.encode bits) false

/-- The block of output that has the number `counter`. -/
def outputBlock (c : Compression s σ) (message : σ) (counter : Nat) : Bytes :=
  LittleEndian.encode
    (c.value (pass c message .output (LittleEndian.wordBytes (UInt64.ofNat counter)) false)).toList

/-- Byte `k` of the output. -/
def outputByte (c : Compression s σ) (message : σ) (k : Nat) : UInt8 :=
  (outputBlock c message (k / s.blockLen))[k % s.blockLen]?.getD 0

/-- The output of `bits` bits that follows the chaining value of a message. -/
def output (c : Compression s σ) (message : σ) (bits : Nat) : Bytes :=
  Bytes.maskLast bits ((List.range (byteCount bits)).map (outputByte c message))

/-- The output has as many bytes as its bits need. -/
theorem length_output (c : Compression s σ) (message : σ) (bits : Nat) :
    (output c message bits).length = byteCount bits := by
  rw [output, Bytes.length_maskLast, List.length_map, List.length_range]

/-- A block of output is as long as any block. -/
theorem length_outputBlock (c : Compression s σ) (message : σ) (counter : Nat) :
    (outputBlock c message counter).length = s.blockLen := by
  rw [outputBlock, LittleEndian.length_encode, Vector.length_toList]
  rfl

/-- The output bytes of one counter value are its block, or as much of it as is asked for. -/
theorem map_outputByte_block (c : Compression s σ) (message : σ) (counter n : Nat) :
    (List.range (min s.blockLen n)).map (fun k => outputByte c message (counter * s.blockLen + k)) =
      (outputBlock c message counter).take n := by
  have hB := s.blockLen_pos
  have hlen := length_outputBlock c message counter
  -- Both sides have the shorter of the two lengths, and are compared byte by byte.
  apply List.ext_getElem
  · rw [List.length_map, List.length_range, List.length_take, hlen, Nat.min_comm]
  · intro k hk hk'
    rw [List.length_take, hlen] at hk'
    -- Byte `counter * B + k` of the output is byte `k` of block `counter`.
    rw [List.getElem_map, List.getElem_range, List.getElem_take, outputByte,
      Nat.mul_add_mod_of_lt (by omega), Nat.mul_comm counter, Nat.mul_add_div hB,
      Nat.div_eq_of_lt (by omega), Nat.add_zero, List.getElem?_eq_getElem (by omega),
      Option.getD_some]

end Blockwise

/-! ## Whole passes -/

/-- What a pass gives depends on the chaining value only. -/
theorem chaining_pass (u : Ubi s σ) (t : BlockType) (input : Bytes) :
    (u.pass c t input).chaining = Blockwise.pass c u.chaining t input false :=
  ((inPass_start u t).absorb input).chaining_finishPass

/-- A message starts after the key and the configuration. -/
theorem hasRead_init (u : Ubi s σ) (key : Bytes) (bits : Nat) :
    HasRead c (u.init c key bits) (keyed c key bits) .message [] := by
  -- The configuration pass comes last, so its chaining value is the one a message starts from.
  have hkeyed : (u.init c key bits).chaining = keyed c key bits := by
    change (Ubi.pass c _ .config (Config.encode bits)).chaining = _
    rw [chaining_pass, keyed]
    -- An empty key has no pass.
    cases key with
    | nil => rfl
    | cons b key => exact congrArg (Blockwise.pass c · _ _ _) (chaining_pass _ _ _)
  rw [← hkeyed]
  exact hasRead_start _ _

/-- A message can start from the saved chaining value. -/
theorem hasRead_restore (u : Ubi s σ) : HasRead c u.restore u.saved .message [] :=
  hasRead_start { u with chaining := u.saved } .message

/-! ## Output -/

/-- The passes over the counter values give the output bytes in order. -/
theorem outputFrom_fst (message : σ) (u : Ubi s σ) (counter n : Nat) :
    (outputFrom c message u counter n).1 =
      (List.range n).map fun k => outputByte c message (counter * s.blockLen + k) := by
  have hB := s.blockLen_pos
  -- Each pass gives up to one block and leaves less to do. The numbers of the later passes go up,
  -- so the induction is for any counter and state.
  induction n using Nat.strongRecOn generalizing u counter with
  | ind n ih =>
    rw [outputFrom]
    by_cases hn : n = 0
    · rw [if_pos hn, hn]
      rfl
    · rw [if_neg hn]
      change List.take n (LittleEndian.encode (c.value (Ubi.pass c _ _ _).chaining).toList) ++
        (outputFrom c message _ (counter + 1) (n - s.blockLen)).1 = _
      rw [ih _ (by omega), chaining_pass]
      change (outputBlock c message counter).take n ++ _ = _
      rw [← map_outputByte_block]
      -- The block gives the first bytes, and the passes behind it give the rest.
      have hsplit : n = min s.blockLen n + (n - s.blockLen) := by omega
      conv => rhs; rw [hsplit, List.range_add, List.map_append, List.map_map]
      congr 1
      apply List.map_congr_left
      intro k hk
      -- There is a next counter value only if the block was used up.
      have hk := List.mem_range.mp hk
      rw [Function.comp_apply, Nat.min_eq_left (by omega), Nat.succ_mul, Nat.add_assoc]

/-- The output of a message depends on what it started from and on its bits only. -/
theorem finish_fst {u : Ubi s σ} {g : σ} {t : BlockType} {message : Bits}
    (h : HasRead c u g t message) (bits : Nat) :
    (u.finish c bits).1 = Blockwise.output c (Blockwise.passBits c g t message) bits := by
  change Bytes.maskLast bits
    (outputFrom c (u.finishPass c).chaining (u.finishPass c) 0 (byteCount bits)).1 = _
  rw [outputFrom_fst, h.chaining_finishPass]
  unfold Blockwise.output
  simp only [Nat.zero_mul, Nat.zero_add]

/-- Finishing gives as many bytes as the bits need, whatever state it finds. -/
theorem length_finish (u : Ubi s σ) (bits : Nat) : (u.finish c bits).1.length = byteCount bits := by
  change (Bytes.maskLast bits (Ubi.outputFrom c _ _ 0 (byteCount bits)).1).length = _
  rw [Bytes.length_maskLast, outputFrom_fst, List.length_map, List.length_range]

/-! ## The saved chaining value -/

/-- Input leaves the saved chaining value alone. -/
theorem saved_absorb (u : Ubi s σ) (data : Bytes) : (u.absorb c data).saved = u.saved := by
  -- Along the recursion of `absorb`: what fits is held, and what does not is compressed first.
  induction u, data using Ubi.absorb.induct c with
  | case1 u data room =>
    rename_i hfits
    rw [Ubi.absorb, if_pos hfits]
    rfl
  | case2 u data room =>
    rename_i hrest ih
    rw [Ubi.absorb, if_neg hrest]
    exact ih

/-- So does input that is counted in bits. -/
theorem saved_absorbBits (u : Ubi s σ) (data : Bytes) (bitCount : Nat) :
    (u.absorbBits c data bitCount).saved = u.saved := by
  rw [absorbBits_eq]
  unfold endInput padPartialByte
  -- Padding, where there is any, changes the buffer and the tweak.
  split
  · exact saved_absorb u data
  · split <;> exact saved_absorb u data

/-- A whole pass leaves the saved chaining value alone. -/
theorem saved_pass (u : Ubi s σ) (t : BlockType) (input : Bytes) :
    (u.pass c t input).saved = u.saved :=
  saved_absorb (u.start t) input

/-- The passes over key and configuration do not save what they give. -/
theorem saved_init (u : Ubi s σ) (key : Bytes) (bits : Nat) :
    (u.init c key bits).saved = u.saved := by
  change (Ubi.pass c _ .config (Config.encode bits)).saved = _
  rw [saved_pass]
  cases key with
  | nil => rfl
  | cons b key => exact saved_pass _ _ _

/-- The passes of the output leave the saved chaining value alone. -/
theorem saved_outputFrom (message : σ) (u : Ubi s σ) (counter n : Nat) :
    (outputFrom c message u counter n).2.saved = u.saved := by
  have hB := s.blockLen_pos
  induction n using Nat.strongRecOn generalizing u counter with
  | ind n ih =>
    rw [outputFrom]
    -- No pass touches what is saved, and the passes that follow are covered by induction.
    by_cases hn : n = 0
    · rw [if_pos hn]
    · rw [if_neg hn]
      exact (ih _ (by omega) _ _).trans (saved_pass _ _ _)

/-- After its output, a message can be started again from the saved chaining value. -/
theorem saved_finish (u : Ubi s σ) (bits : Nat) : (u.finish c bits).2.saved = u.saved :=
  saved_outputFrom (u.finishPass c).chaining (u.finishPass c) 0 (byteCount bits)

end SkeinHash.Ubi
