import SkeinHash.Proofs.BitPacking
import SkeinHash.Proofs.StreamedPass

/-!
# Passes over bit strings

The bytes that a pass takes in are determined by a bit string, whether it came as bytes, as a number
of bits, or in pieces. Input can be appended as long as the string ends on a byte boundary.

- `Bits.padded`: the bytes of a pass over a bit string
- `padded_append_ofBytes`, `padded_append_leading`: input appended to a bit string
- `HasRead`: the state of a pass that has taken in a bit string
-/

namespace SkeinHash.Bits

open Ubi.Blockwise (endInput padLast)

/-- The bytes of a pass over a bit string: whole bytes as they are, and a partial byte filled up
    with a one bit and zeros. -/
def padded (bits : Bits) : Bytes :=
  if bits.length % 8 = 0 then pack bits else pack (bits ++ [true])

/-- Padding a byte string changes its last byte as `padded` fills up a bit string. -/
theorem padLast_append_singleton (data : Bytes) (last : UInt8) (v : Nat) :
    padLast (data ++ [last]) v = data ++ [packByte ((ofByte last).take v ++ [true])] := by
  have hlast : (data ++ [last]).length - 1 = data.length := by
    rw [List.length_append, List.length_singleton, Nat.add_sub_cancel]
  -- Only the last element of the list is at the place that is modified.
  unfold padLast
  rw [hlast, List.modify_eq_take_cons_drop (by simp), List.take_left,
    List.getElem_concat_length rfl, List.drop_eq_nil_of_le (by simp)]

/-- Whole bytes leave a bit string on a byte boundary. -/
theorem length_append_ofBytes_mod {bits : Bits} (halign : bits.length % 8 = 0) (data : Bytes) :
    (bits ++ ofBytes data).length % 8 = 0 := by
  rw [List.length_append, length_ofBytes]
  omega

/-- Whole bytes are appended as they are. -/
theorem padded_append_ofBytes {bits : Bits} (halign : bits.length % 8 = 0) (data : Bytes) :
    padded (bits ++ ofBytes data) = padded bits ++ data := by
  have halign' := length_append_ofBytes_mod halign data
  -- Neither string needs a marker, so both sides are packed bytes.
  unfold padded
  rw [if_pos halign, if_pos halign', pack_append halign, pack_ofBytes]

/-- Behind whole bytes, the number of bits alone says where in a byte the string ends. -/
theorem length_append_leading_mod {bits : Bits} (halign : bits.length % 8 = 0) {data : Bytes}
    {n : Nat} (hlen : n ≤ 8 * data.length) : (bits ++ leading data n).length % 8 = n % 8 := by
  rw [List.length_append, leading, List.length_take, length_ofBytes]
  omega

/-- Input that is counted in bits may end the message with a partial byte. -/
theorem padded_append_leading {bits : Bits} (halign : bits.length % 8 = 0) {data : Bytes} {n : Nat}
    (hlen : n ≤ 8 * data.length) :
    padded (bits ++ leading data n) =
      endInput (padded bits ++ data.take (byteCount n)) (n % 8) := by
  by_cases hwhole : n % 8 = 0
  · rw [leading_of_aligned data hwhole, padded_append_ofBytes halign, hwhole]
    rfl
  · -- the partial byte stands alone behind whole bytes
    have hmod := length_append_leading_mod halign hlen
    obtain ⟨last, hbytes, hbits⟩ := leading_eq_of_partial hwhole hlen
    have hprefix := length_append_ofBytes_mod halign (data.take (n / 8))
    have hpartial : ((ofByte last).take (n % 8) ++ [true]).length = n % 8 + 1 := by
      rw [List.length_append, List.length_singleton, List.length_take, length_ofByte]
      omega
    have hpack : pack ((ofByte last).take (n % 8) ++ [true]) =
        [packByte ((ofByte last).take (n % 8) ++ [true])] :=
      pack_of_length_le (by omega) (by omega)
    -- The marker goes into the partial byte, the whole bytes are taken out in front of it, and
    -- what remains is `padLast` on that byte.
    calc padded (bits ++ leading data n)
        = pack ((bits ++ ofBytes (data.take (n / 8))) ++
            ((ofByte last).take (n % 8) ++ [true])) := by
          unfold padded
          rw [if_neg (by omega), hbits]
          simp only [List.append_assoc]
      _ = padded (bits ++ ofBytes (data.take (n / 8))) ++
            [packByte ((ofByte last).take (n % 8) ++ [true])] := by
          rw [pack_append hprefix, hpack, padded, if_pos hprefix]
      _ = padLast (padded bits ++ data.take (n / 8) ++ [last]) (n % 8) := by
          rw [padLast_append_singleton, padded_append_ofBytes halign]
      _ = endInput (padded bits ++ data.take (byteCount n)) (n % 8) := by
          rw [endInput, if_neg hwhole, hbytes, List.append_assoc]

end SkeinHash.Bits

namespace SkeinHash.Ubi

/-! ## Passes over bit strings -/

variable {s : StateSize} {σ : Type} {c : Compression s σ} {g : σ} {t : BlockType}

/-- The chaining value after a pass over a bit string. -/
def Blockwise.passBits (c : Compression s σ) (g : σ) (t : BlockType) (bits : Bits) : σ :=
  pass c g t bits.padded (bits.length % 8 ≠ 0)

/-- A pass over the bits of bytes is the pass over the bytes. -/
theorem Blockwise.passBits_ofBytes (c : Compression s σ) (g : σ) (t : BlockType) (data : Bytes) :
    passBits c g t (Bits.ofBytes data) = pass c g t data false := by
  have halign : (Bits.ofBytes data).length % 8 = 0 := by
    rw [Bits.length_ofBytes]
    omega
  unfold passBits Bits.padded
  rw [if_pos halign, Bits.pack_ofBytes, decide_eq_false (not_not_intro halign)]

/-- `u` is in a pass of type `t` that started from the chaining value `g` and has taken in the bit
    string `bits`. -/
def HasRead (c : Compression s σ) (u : Ubi s σ) (g : σ) (t : BlockType) (bits : Bits) : Prop :=
  InPass c u g t bits.padded (bits.length % 8 ≠ 0)

/-- A pass that has been started has taken in no bits. -/
theorem hasRead_start (u : Ubi s σ) (t : BlockType) : HasRead c (u.start t) u.chaining t [] :=
  inPass_start u t

namespace HasRead

variable {u : Ubi s σ} {bits : Bits}

/-- On a byte boundary there is no partial byte, so more input may follow. -/
theorem inPass_of_aligned (h : HasRead c u g t bits) (halign : bits.length % 8 = 0) :
    InPass c u g t bits.padded false := by
  unfold HasRead at h
  rwa [decide_eq_false (not_not_intro halign)] at h

/-- Whole bytes are appended to the bits. -/
theorem absorb (h : HasRead c u g t bits) (halign : bits.length % 8 = 0) (data : Bytes) :
    HasRead c (u.absorb c data) g t (bits ++ Bits.ofBytes data) := by
  have halign' := Bits.length_append_ofBytes_mod halign data
  -- In terms of bytes this is `InPass.absorb`.
  unfold HasRead
  rw [Bits.padded_append_ofBytes halign, decide_eq_false (not_not_intro halign')]
  exact (h.inPass_of_aligned halign).absorb data

/-- Where whole bytes are cut makes no difference. -/
theorem foldl_absorb (h : HasRead c u g t bits) (halign : bits.length % 8 = 0)
    (pieces : List Bytes) :
    HasRead c (pieces.foldl (Ubi.absorb c) u) g t (bits ++ Bits.ofBytes pieces.flatten) := by
  have halign' := Bits.length_append_ofBytes_mod halign pieces.flatten
  unfold HasRead
  rw [Bits.padded_append_ofBytes halign, decide_eq_false (not_not_intro halign')]
  exact (h.inPass_of_aligned halign).foldl_absorb pieces

/-- Input that is counted in bits appends its leading bits. -/
theorem absorbBits (h : HasRead c u g t bits) (halign : bits.length % 8 = 0) {data : Bytes}
    {n : Nat} (hlen : n ≤ 8 * data.length) :
    HasRead c (u.absorbBits c (data.take (byteCount n)) n) g t (bits ++ Bits.leading data n) := by
  -- The partial byte, if there is one, is in the bits that are appended.
  unfold HasRead
  rw [Bits.padded_append_leading halign hlen, Bits.length_append_leading_mod halign hlen]
  exact (h.inPass_of_aligned halign).absorbBits hlen

theorem save (h : HasRead c u g t bits) : HasRead c u.save g t bits := InPass.save h

/-- Without any bits, the chaining value is the one the pass started from. -/
theorem chaining_of_nil (h : HasRead c u g t []) : u.chaining = g := InPass.chaining_of_nil h

/-- The chaining value at the end is that of the pass over the bits. -/
theorem chaining_finishPass (h : HasRead c u g t bits) :
    (u.finishPass c).chaining = Blockwise.passBits c g t bits :=
  InPass.chaining_finishPass h

/-- The flag in the tweak says whether the bits have ended inside a byte. -/
theorem isBitPad_tweak (h : HasRead c u g t bits) :
    u.tweak.isBitPad = decide (bits.length % 8 ≠ 0) :=
  InPass.isBitPad_tweak h

end HasRead

end SkeinHash.Ubi
