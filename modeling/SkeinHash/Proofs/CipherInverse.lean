import SkeinHash.Proofs.LittleEndianCodec
import SkeinHash.Proofs.WordPairs

/-!
# Decryption is the inverse of encryption

Every part of the cipher has an inverse, and decryption takes the inverses in the opposite order:
the last round is undone first, and inside a round the subkey before the mixing. Only the steps of
one round are undone in the order in which they were taken, as no two of them share a word.

- `unmix_mix`, `mix_unmix`: one step
- `unmixRound_mixRound`, `mixRound_unmixRound`: one round without its subkey
- `foldr_unround_foldl_round`, `foldl_round_foldr_unround`: any number of rounds
- `decrypt_encrypt_inverse`: blocks and buffers of one block, in both directions
-/

namespace SkeinHash.Threefish

/-! ## Rotations -/

/-- Shift amounts count modulo the width of a word, also when they do not fit into one. -/
theorem toNat_shiftAmount (k : Nat) : ((UInt64.ofNat k).toBitVec % 64).toNat = k % 64 := by
  change k % 2 ^ 64 % 64 = k % 64
  omega

/-- Shifts by any number, as bit vectors. -/
theorem toBitVec_shiftLeft_ofNat (x : UInt64) (k : Nat) :
    (x <<< UInt64.ofNat k).toBitVec = x.toBitVec <<< (k % 64) := by
  rw [UInt64.toBitVec_shiftLeft, BitVec.shiftLeft_eq', toNat_shiftAmount]

theorem toBitVec_shiftRight_ofNat (x : UInt64) (k : Nat) :
    (x >>> UInt64.ofNat k).toBitVec = x.toBitVec >>> (k % 64) := by
  rw [UInt64.toBitVec_shiftRight, BitVec.ushiftRight_eq', toNat_shiftAmount]

/-- The two shifts that make up a rotation to the left are the rotation of the bit vector. -/
theorem toBitVec_rotateLeft (x : UInt64) (r : Nat) :
    (rotateLeft x r).toBitVec = x.toBitVec.rotateLeft r := by
  unfold rotateLeft
  rw [UInt64.toBitVec_or, toBitVec_shiftLeft_ofNat, toBitVec_shiftRight_ofNat, Nat.mod_mod,
    BitVec.rotateLeft_def]
  -- Shift amounts count modulo 64, so for a rotation by nothing both shifts give the whole word.
  rcases Nat.eq_zero_or_pos (r % 64) with hzero | hpos
  · simp [hzero, BitVec.ushiftRight_eq_zero]
  · rw [Nat.mod_eq_of_lt (show 64 - r % 64 < 64 by omega)]

/-- The same for a rotation to the right. -/
theorem toBitVec_rotateRight (x : UInt64) (r : Nat) :
    (rotateRight x r).toBitVec = x.toBitVec.rotateRight r := by
  unfold rotateRight
  rw [UInt64.toBitVec_or, toBitVec_shiftLeft_ofNat, toBitVec_shiftRight_ofNat, Nat.mod_mod,
    BitVec.rotateRight_def]
  rcases Nat.eq_zero_or_pos (r % 64) with hzero | hpos
  · simp [hzero]
  · rw [Nat.mod_eq_of_lt (show 64 - r % 64 < 64 by omega)]

/-- After a rotation to the left, bit `i` is the one that stood `r` places lower. -/
theorem getLsbD_rotateLeft (x : BitVec 64) (r : Nat) {i : Nat} (hi : i < 64) :
    (x.rotateLeft r).getLsbD i = x.getLsbD ((i + (64 - r % 64)) % 64) := by
  have hr : r % 64 < 64 := Nat.mod_lt r (by decide)
  rw [BitVec.getLsbD_rotateLeft, Bool.cond_decide, decide_eq_true hi, Bool.true_and]
  -- Below the amount of the rotation the bit has come around from the upper end.
  split
  · congr 1
    omega
  · congr 1
    omega

/-- After a rotation to the right, bit `i` is the one that stood `r` places higher. -/
theorem getLsbD_rotateRight (x : BitVec 64) (r : Nat) {i : Nat} (hi : i < 64) :
    (x.rotateRight r).getLsbD i = x.getLsbD ((i + r % 64) % 64) := by
  have hr : r % 64 < 64 := Nat.mod_lt r (by decide)
  rw [BitVec.getLsbD_rotateRight, Bool.cond_decide, decide_eq_true hi, Bool.true_and]
  -- Here the bits that come around are those at the upper end.
  split
  · congr 1
    omega
  · congr 1
    omega

/-- Rotating back undoes a rotation to the left. -/
theorem rotateRight_rotateLeft (x : UInt64) (r : Nat) : rotateRight (rotateLeft x r) r = x := by
  apply UInt64.toBitVec_inj.mp
  rw [toBitVec_rotateRight, toBitVec_rotateLeft]
  apply BitVec.eq_of_getLsbD_eq
  -- Bit `i` has gone up by `r` and down again, modulo 64.
  intro i hi
  rw [getLsbD_rotateRight _ r hi, getLsbD_rotateLeft _ r (Nat.mod_lt _ (by decide))]
  congr 1
  omega

/-- Rotating back undoes a rotation to the right. -/
theorem rotateLeft_rotateRight (x : UInt64) (r : Nat) : rotateLeft (rotateRight x r) r = x := by
  apply UInt64.toBitVec_inj.mp
  rw [toBitVec_rotateLeft, toBitVec_rotateRight]
  apply BitVec.eq_of_getLsbD_eq
  intro i hi
  rw [getLsbD_rotateLeft _ r hi, getLsbD_rotateRight _ r (Nat.mod_lt _ (by decide))]
  congr 1
  omega

/-! ## One round -/

/-- `unmix` undoes `mix`. -/
theorem unmix_mix (a b : UInt64) (r : Nat) : unmix (mix a b r).1 (mix a b r).2 r = (a, b) := by
  -- The sum is in the block, so it can be taken out of the second word again.
  have hsecond : rotateRight (rotateLeft b r ^^^ (a + b) ^^^ (a + b)) r = b := by
    rw [UInt64.xor_assoc, UInt64.xor_self, UInt64.xor_zero, rotateRight_rotateLeft]
  simp only [mix, unmix, hsecond, UInt64.add_sub_cancel]

/-- `mix` undoes `unmix`. -/
theorem mix_unmix (a b : UInt64) (r : Nat) : mix (unmix a b r).1 (unmix a b r).2 r = (a, b) := by
  -- `unmix` has taken the second word out of the first, so adding it restores the sum.
  have hsum : a - rotateRight (b ^^^ a) r + rotateRight (b ^^^ a) r = a := UInt64.sub_add_cancel _ _
  have hsecond : b ^^^ a ^^^ a = b := by
    rw [UInt64.xor_assoc, UInt64.xor_self, UInt64.xor_zero]
  simp only [mix, unmix, hsum, rotateLeft_rotateRight, hsecond]

variable {s : StateSize}

/-- A round without its subkey is undone by `unmixRound`. -/
theorem unmixRound_mixRound (d : Nat) (x : Block s) : unmixRound d (mixRound d x) = x := by
  rw [unmixRound_eq_foldl, mixRound_eq_foldl]
  exact foldl_applyAt_inverse unmix_mix x (independent_steps s d)

/-- Undoing a round is undone by the round. -/
theorem mixRound_unmixRound (d : Nat) (x : Block s) : mixRound d (unmixRound d x) = x := by
  rw [mixRound_eq_foldl, unmixRound_eq_foldl]
  exact foldl_applyAt_inverse mix_unmix x (independent_steps s d)

variable (c : Threefish s)

/-- Subtracting a subkey undoes its addition, word by word. -/
theorem subSubkey_addSubkey (d : Nat) (x : Block s) : c.subSubkey d (c.addSubkey d x) = x := by
  apply Vector.ext
  intro i hi
  simp only [subSubkey, addSubkey, Vector.getElem_mapIdx, UInt64.add_sub_cancel]

/-- Adding a subkey undoes its subtraction. -/
theorem addSubkey_subSubkey (d : Nat) (x : Block s) : c.addSubkey d (c.subSubkey d x) = x := by
  apply Vector.ext
  intro i hi
  simp only [subSubkey, addSubkey, Vector.getElem_mapIdx, UInt64.sub_add_cancel]

/-- A round with its subkey, if it has one, is undone. -/
theorem unround_round (d : Nat) (x : Block s) : c.unround d (c.round x d) = x := by
  unfold unround round
  -- The subkey was added after the mixing, so it goes first.
  by_cases hsubkey : d % 4 = 3
  · simp only [if_pos hsubkey]
    rw [subSubkey_addSubkey, unmixRound_mixRound]
  · simp only [if_neg hsubkey]
    exact unmixRound_mixRound d x

/-- A round undoes what undoes it. -/
theorem round_unround (d : Nat) (x : Block s) : c.round (c.unround d x) d = x := by
  unfold unround round
  by_cases hsubkey : d % 4 = 3
  · simp only [if_pos hsubkey]
    rw [mixRound_unmixRound, addSubkey_subSubkey]
  · simp only [if_neg hsubkey]
    exact mixRound_unmixRound d x

/-! ## Blocks -/

/-- Any number of rounds is undone from the last one back. -/
theorem foldr_unround_foldl_round (rounds : List Nat) (x : Block s) :
    rounds.foldr c.unround (rounds.foldl c.round x) = x := by
  -- The fold from the right undoes the last round first, so the first one is what remains.
  induction rounds generalizing x with
  | nil => rfl
  | cons d rest ih => rw [List.foldl_cons, List.foldr_cons, ih, unround_round]

/-- Rounds undo the rounds that were undone before them. -/
theorem foldl_round_foldr_unround (rounds : List Nat) (x : Block s) :
    rounds.foldl c.round (rounds.foldr c.unround x) = x := by
  induction rounds with
  | nil => rfl
  -- Here the fold from the right undoes the rest before the first round.
  | cons d rest ih => rw [List.foldl_cons, List.foldr_cons, round_unround, ih]

/-- An encrypted block is decrypted. -/
theorem decrypt_encrypt (block : Block s) : c.decrypt (c.encrypt block) = block := by
  unfold decrypt encrypt
  rw [foldr_unround_foldl_round, subSubkey_addSubkey]

/-- A decrypted block is encrypted. -/
theorem encrypt_decrypt (block : Block s) : c.encrypt (c.decrypt block) = block := by
  unfold decrypt encrypt
  rw [addSubkey_subSubkey, foldl_round_foldr_unround]

/-! ## Buffers -/

/-- On a buffer of one block, a function on blocks replaces the words that the buffer holds. -/
theorem onBytes_encode (f : Block s → Block s) (block : Block s) :
    onBytes f (LittleEndian.encode block.toList) =
      (.ok (), LittleEndian.encode (f block).toList) := by
  have hlen : (LittleEndian.encode block.toList).length = 8 * s.words := by
    rw [LittleEndian.length_encode, Vector.length_toList]
  unfold onBytes
  -- The buffer is read as the block that it encodes, and overwritten as a whole.
  rw [LittleEndian.ofBytes?_eq_some_iff.mpr rfl]
  exact congrArg (Except.ok (), ·) (LittleEndian.writeInto_eq_encode (f block) hlen)

/-- A buffer of one block is the encoding of a block. -/
theorem exists_encode_eq {buffer : Bytes} (hlen : buffer.length = s.blockLen) :
    ∃ block : Block s, buffer = LittleEndian.encode block.toList := by
  have hsome := (LittleEndian.ofBytes?_isSome_iff s.words buffer).mpr hlen
  obtain ⟨block, hblock⟩ := Option.isSome_iff_exists.mp hsome
  exact ⟨block, LittleEndian.ofBytes?_eq_some_iff.mp hblock⟩

/-- **Decryption is the inverse of encryption, on either side.** With any key and tweak, each of
    them gives back every block that has gone through the other one. On a buffer of one block both
    succeed, and the second one restores the buffer byte for byte. -/
theorem decrypt_encrypt_inverse (c : Threefish s) :
    (∀ block, c.decrypt (c.encrypt block) = block ∧ c.encrypt (c.decrypt block) = block) ∧
    ∀ buffer : Bytes, buffer.length = s.blockLen →
      (∃ encrypted, c.encryptBytes buffer = (.ok (), encrypted) ∧
        c.decryptBytes encrypted = (.ok (), buffer)) ∧
      ∃ decrypted, c.decryptBytes buffer = (.ok (), decrypted) ∧
        c.encryptBytes decrypted = (.ok (), buffer) := by
  refine ⟨fun block => ⟨c.decrypt_encrypt block, c.encrypt_decrypt block⟩, fun buffer hlen => ?_⟩
  obtain ⟨block, rfl⟩ := exists_encode_eq hlen
  unfold encryptBytes decryptBytes
  refine ⟨⟨_, onBytes_encode c.encrypt block, ?_⟩, ⟨_, onBytes_encode c.decrypt block, ?_⟩⟩
  · rw [onBytes_encode, decrypt_encrypt]
  · rw [onBytes_encode, encrypt_decrypt]

/-- A buffer that is not made of equal bytes, under a key and a tweak without zeros. -/
theorem decrypt_encrypt_inverse_ramp :
    let c : Threefish .skein512 := ofWords (Vector.ofFn fun i => UInt64.ofNat (i + 1)) 0x10 0x30
    let buffer : Bytes := (List.range 64).map UInt8.ofNat
    buffer.length = 64 ∧
    (∃ encrypted, c.encryptBytes buffer = (.ok (), encrypted) ∧
      c.decryptBytes encrypted = (.ok (), buffer)) ∧
    ∃ decrypted, c.decryptBytes buffer = (.ok (), decrypted) ∧
      c.encryptBytes decrypted = (.ok (), buffer) := by
  intro c buffer
  have hlen : buffer.length = 64 := by decide
  exact ⟨hlen, (decrypt_encrypt_inverse c).2 buffer hlen⟩

end SkeinHash.Threefish
