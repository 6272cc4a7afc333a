import SkeinHash.Composition
import SkeinHash.Proofs.ContextOperations

/-!
# A hash is a composition of single passes

Single passes that are started by hand, each from the chaining value of the one before, give the
output of a context byte for byte, whatever the context has done before.

- `ubi_eq`: a single pass on its own
- `getElem?_maskLast`: the output bytes when the last one is partial
- `run_eq_composition`: the three calls of a hash
-/

namespace SkeinHash.Composition

open Ubi.Blockwise

variable {s : StateSize}

/-! ## Single passes -/

/-- A single pass with enough input is the pass over the leading bits of its input. -/
theorem ubi_eq (chaining : Block s) (t : BlockType) {input : Bytes} {bitCount : Nat}
    (hlen : bitCount ≤ 8 * input.length) :
    ubi chaining t input bitCount =
      .ok (passBits (.threefish s) chaining t (Bits.leading input bitCount)) := by
  have hstart : Ubi.HasRead (.threefish s) ((Ubi.ofChaining (.threefish s) chaining).start t)
      chaining t [] := Ubi.hasRead_start (Ubi.ofChaining (.threefish s) chaining) t
  -- The state of a single pass is new, but any state would do.
  unfold ubi leadingBytes
  rw [if_pos ((byteCount_le_iff _ _).mpr hlen)]
  exact congrArg Except.ok (hstart.absorbBits rfl hlen).chaining_finishPass

/-- A pass over whole bytes has nothing to pad. -/
theorem ubi_whole (chaining : Block s) (t : BlockType) {input : Bytes} {bitCount : Nat}
    (hlen : bitCount = 8 * input.length) :
    ubi chaining t input bitCount = .ok (pass (.threefish s) chaining t input false) := by
  rw [ubi_eq chaining t (Nat.le_of_eq hlen), hlen, Bits.leading, ← Bits.length_ofBytes,
    List.take_length, passBits_ofBytes]

/-- The pass over the configuration takes in all of its 32 bytes. -/
theorem ubi_config (chaining : Block s) (bits : Nat) :
    ubi chaining .config (Config.encode bits) 256 =
      .ok (pass (.threefish s) chaining .config (Config.encode bits) false) :=
  ubi_whole chaining .config (by rw [Config.length_encode])

/-- A step that succeeds hands its result on. -/
theorem ok_bind {ε α β : Type} (a : α) (f : α → Except ε β) : (Except.ok a >>= f) = f a := rfl

/-- The pass over the key succeeds, and an empty key has none. -/
theorem afterKey_eq (s : StateSize) (key : Bytes) :
    afterKey s key = .ok (if key = [] then Block.zero s
      else pass (.threefish s) (Block.zero s) .key key false) := by
  unfold afterKey
  split
  · rfl
  · exact ubi_whole _ .key rfl

/-- The three passes before the output succeed, one from the result of the other. -/
theorem afterMessage_eq (key : Bytes) (bits : Nat) {data : Bytes} {bitCount : Nat}
    (hlen : bitCount ≤ 8 * data.length) :
    afterMessage s key bits data bitCount = .ok (passBits (.threefish s)
      (keyed (.threefish s) key bits) .message (Bits.leading data bitCount)) := by
  unfold afterMessage
  rw [afterKey_eq, ok_bind, ubi_config, ok_bind, ubi_eq _ _ hlen]
  rfl

/-- The pass over a counter value takes in all of its eight bytes. -/
theorem ubi_output (message : Block s) (counter : Nat) :
    ubi message .output (LittleEndian.wordBytes (UInt64.ofNat counter)) 64 =
      .ok (pass (.threefish s) message .output
        (LittleEndian.wordBytes (UInt64.ofNat counter)) false) :=
  ubi_whole message .output (by rw [LittleEndian.length_wordBytes])

/-- Each byte of the output is the one that `Blockwise.outputByte` says. -/
theorem outputByte_eq (message : Block s) (k : Nat) :
    Composition.outputByte message k = .ok (Ubi.Blockwise.outputByte (.threefish s) message k) := by
  unfold Composition.outputByte
  rw [ubi_output]
  rfl

/-- The composition of all passes is the output of the block-by-block chaining value. -/
theorem hash_eq (key : Bytes) (bits : Nat) {data : Bytes} {bitCount : Nat}
    (hlen : bitCount ≤ 8 * data.length) :
    hash s key bits data bitCount = .ok (output (.threefish s) (passBits (.threefish s)
      (keyed (.threefish s) key bits) .message (Bits.leading data bitCount)) bits) := by
  unfold hash
  rw [afterMessage_eq key bits hlen, ok_bind, funext (outputByte_eq _)]
  -- Every byte succeeds, so the loop over them is a map.
  change ((List.range (byteCount bits)).mapM (fun k => pure _) >>= _) = _
  rw [List.mapM_pure]
  rfl

/-! ## The last byte -/

/-- The byte `b` with its `k` low-order bits cleared. -/
def clearLow (k : Nat) (b : UInt8) : UInt8 := b >>> UInt8.ofNat k <<< UInt8.ofNat k

/-- Masking with ones that are shifted up clears the bits below them. -/
theorem and_ones_shiftLeft (b : UInt8) {k : Nat} (hpos : 1 ≤ k) (hlt : k ≤ 7) :
    b &&& (0xff <<< UInt8.ofNat k) = clearLow k b := by
  -- Seven shifts and 256 bytes are checked one by one.
  have all : ∀ j : Fin 7, ∀ n : Fin 256,
      UInt8.ofFin n &&& (0xff <<< UInt8.ofNat (j + 1)) = clearLow (j + 1) (UInt8.ofFin n) := by
    decide +kernel
  have hb := all ⟨k - 1, by omega⟩ b.toFin
  simp only [Nat.sub_add_cancel hpos] at hb
  exact hb

/-- Masking changes the last byte only, and only if the bits do not fill it. -/
theorem getElem?_maskLast (bits : Nat) (out : Bytes) (k : Nat) :
    (Bytes.maskLast bits out)[k]? = out[k]?.map fun b =>
      if k + 1 = out.length ∧ bits % 8 ≠ 0 then clearLow (8 - bits % 8) b else b := by
  unfold Bytes.maskLast
  by_cases hwhole : bits % 8 = 0
  · simp [hwhole]
  · simp only [if_neg hwhole, List.getElem?_modify, Option.map_eq_map]
    cases hk : out[k]? with
    | none => rfl
    | some b =>
      have hlt := (List.getElem?_eq_some_iff.mp hk).1
      -- Only the last byte is masked.
      by_cases hlast : k + 1 = out.length
      · rw [Option.map_some, Option.map_some, if_pos (by omega), if_pos ⟨hlast, hwhole⟩,
          and_ones_shiftLeft b (by omega) (by omega)]
      · simp [show out.length - 1 ≠ k by omega, hlast]

/-! ## The output byte for byte -/

/-- **A hash is a composition of single passes.** The three calls of a hash succeed on any context,
    and the output bytes are those of the passes over the key, unless it is empty, the
    configuration, the message and the output counter, with the unused bits of the last byte
    cleared. The rest of the buffer keeps its bytes. -/
theorem run_eq_composition (ctx : Context s) (key : Bytes) (bits : Nat) (data : Bytes)
    (bitCount : Nat) (out : Bytes) (hbits : 0 < bits) (hcount : bitCount ≤ 8 * data.length)
    (hroom : byteCount bits ≤ out.length) :
    ∃ (g₀ g₁ g₂ : Block s) (result : Bytes),
      (ctx.run [.initWithKey key bits, .updateBits data bitCount, .finish out]).1 =
        [⟨.ok (), []⟩, ⟨.ok (), []⟩, ⟨.ok (), result⟩] ∧
      hash s key bits data bitCount = .ok (result.take (byteCount bits)) ∧
      (if key = [] then .ok (Block.zero s)
        else ubi (Block.zero s) .key key (8 * key.length)) = .ok g₀ ∧
      ubi g₀ .config ([0x53, 0x48, 0x41, 0x33, 1, 0, 0, 0] ++
        LittleEndian.wordBytes (UInt64.ofNat bits) ++ List.replicate 16 0) 256 = .ok g₁ ∧
      ubi g₁ .message data bitCount = .ok g₂ ∧
      (∀ k < byteCount bits, ∃ block b,
        ubi g₂ .output (LittleEndian.wordBytes (UInt64.ofNat (k / s.blockLen))) 64 = .ok block ∧
        (LittleEndian.encode block.toList)[k % s.blockLen]? = some b ∧
        result[k]? = some (if k + 1 = byteCount bits ∧ bits % 8 ≠ 0 then clearLow (8 - bits % 8) b
          else b)) ∧
      result.length = out.length ∧ ∀ k, byteCount bits ≤ k → result[k]? = out[k]? := by
  let c := Compression.threefish s
  let g₂ := passBits c (keyed c key bits) .message (Bits.leading data bitCount)
  have hlen : (output c g₂ bits).length = byteCount bits := length_output c g₂ bits
  -- The chaining values are named, and what is said of each of them is a lemma above.
  refine ⟨_, keyed c key bits, g₂, output c g₂ bits ++ out.drop (byteCount bits),
    ctx.run_initWithKey_updateBits_finish key (Nat.ne_of_gt hbits) hcount hroom, ?_,
    afterKey_eq s key, ubi_config _ bits, ubi_eq _ .message hcount, fun k hk => ?_, ?_,
    fun k hk => ?_⟩
  · -- the output is the one that `hash` puts together
    rw [List.take_left' hlen]
    exact hash_eq key bits hcount
  · -- byte `k` stands in the block of its counter value
    have hinBlock : k % s.blockLen < (outputBlock c g₂ (k / s.blockLen)).length := by
      rw [length_outputBlock]
      exact Nat.mod_lt _ s.blockLen_pos
    have hbyte : Ubi.Blockwise.outputByte c g₂ k =
        (outputBlock c g₂ (k / s.blockLen))[k % s.blockLen] := by
      rw [Ubi.Blockwise.outputByte, List.getElem?_eq_getElem hinBlock, Option.getD_some]
    refine ⟨_, Ubi.Blockwise.outputByte c g₂ k, ubi_output g₂ _, ?_, ?_⟩
    · rw [hbyte]
      exact List.getElem?_eq_getElem hinBlock
    · rw [List.getElem?_append_left (by omega), output, getElem?_maskLast, List.length_map,
        List.length_range, List.getElem?_map, List.getElem?_range hk]
      rfl
  · -- The output and what is left of the buffer are as long as the buffer was.
    rw [List.length_append, hlen, List.length_drop]
    omega
  · -- behind the output the buffer is as it was
    rw [List.getElem?_append_right (by omega), List.getElem?_drop, hlen]
    congr 1
    omega

/-- An output of two blocks that ends inside a byte, under a key, in a buffer that is longer. -/
theorem run_eq_composition_two_blocks :
    let out : Bytes := List.replicate 130 7
    (0 < 1019 ∧ 11 ≤ 8 * 2 ∧ byteCount 1019 ≤ out.length) ∧
    ∃ result,
      ((Context.new .skein512).run
        [.initWithKey [1, 2, 3] 1019, .updateBits [0xff, 0xe0] 11, .finish out]).1 =
        [⟨.ok (), []⟩, ⟨.ok (), []⟩, ⟨.ok (), result⟩] ∧
      hash .skein512 [1, 2, 3] 1019 [0xff, 0xe0] 11 = .ok (result.take 128) ∧
      result[128]? = some 7 := by
  intro out
  have hcount : byteCount 1019 = 128 := by decide
  have hroom : byteCount 1019 ≤ out.length := by simp [hcount, out]
  -- Of the buffer of 130 bytes the last two lie behind the output.
  obtain ⟨_, _, _, result, hrun, hhash, _, _, _, _, _, hrest⟩ :=
    run_eq_composition (Context.new .skein512) [1, 2, 3] 1019 [0xff, 0xe0] 11 out (by decide)
      (by decide) hroom
  rw [hcount] at hhash
  exact ⟨⟨by decide, by decide, hroom⟩, result, hrun, hhash, hrest 128 (by decide)⟩

end SkeinHash.Composition
