import SkeinHash.Proofs.PassCalls
import SkeinHash.Ubi.Transcript

/-!
# Transcripts tell their inputs apart

The calls of the passes over the key, the configuration and the message make up the transcript. Every
call carries the type of its pass, so the transcript falls apart into the passes, and each of them
gives back its input: the key, the output length, and the message, whose padding starts at its last
one bit.

- `transcript_eq`: the transcript, pass by pass
- `chaining_eq_replay_transcript`: hashing makes the calls of the transcript
- `padded_inj`: a bit string, read back from its bytes
- `transcript_injective`: different inputs never have the same transcript
-/

namespace SkeinHash

/-! ## Padded bit strings -/

namespace Bits

/-- Packed bytes tell the bits, if it is known how many there are. -/
theorem pack_inj {a b : Bits} (hlen : a.length = b.length) (h : pack a = pack b) : a = b := by
  rw [← leading_pack a, h, hlen, leading_pack]

/-- Packed bytes tell the bits up to zeros at the end. -/
theorem getD_eq_of_pack_eq {a b : Bits} (h : pack a = pack b) (k : Nat) :
    a[k]?.getD false = b[k]?.getD false := by
  have hcount : byteCount a.length = byteCount b.length := by
    rw [← length_pack, h, length_pack]
  have ha := byteCount_eq a.length
  have hb := byteCount_eq b.length
  by_cases hk : k / 8 < byteCount a.length
  · -- Bit `k` is in byte `k / 8`, where place 7 is the first.
    have hbyte : packByte (a.drop (8 * (k / 8))) = packByte (b.drop (8 * (k / 8))) := by
      have hpacked := congrArg (·[k / 8]?) h
      simp only [pack, List.getElem?_map, ← hcount, List.getElem?_range hk, Option.map_some,
        Option.some.injEq] at hpacked
      exact hpacked
    have hbit := congrArg (fun byte : UInt8 => byte.toNat.testBit (7 - k % 8)) hbyte
    have hplace : 8 * (k / 8) + (7 - (7 - k % 8)) = k := by omega
    simp only [testBit_packByte _ (show 7 - k % 8 < 8 by omega), List.getElem?_drop, hplace] at hbit
    exact hbit
  · rw [List.getElem?_eq_none (by omega), List.getElem?_eq_none (by omega)]

/-- A bit string cannot be longer than another that it shares its marker with. -/
theorem le_length_of_pack_concat_eq {a b : Bits} (h : pack (a ++ [true]) = pack (b ++ [true])) :
    a.length ≤ b.length := by
  have hset := getD_eq_of_pack_eq h a.length
  rcases Nat.lt_or_ge b.length a.length with hlt | hge
  · -- The marker of `a` would stand behind the end of `b`, where nothing is set.
    have hnone : (b ++ [true])[a.length]? = none := List.getElem?_eq_none (by simp; omega)
    rw [List.getElem?_concat_length, hnone] at hset
    exact Bool.noConfusion hset
  · exact hge

/-- A bit string can be read back from its bytes when it is known whether it has been padded. -/
theorem padded_inj {a b : Bits} (hpadded : decide (a.length % 8 ≠ 0) = decide (b.length % 8 ≠ 0))
    (h : padded a = padded b) : a = b := by
  have hiff : a.length % 8 ≠ 0 ↔ b.length % 8 ≠ 0 := decide_eq_decide.mp hpadded
  unfold padded at h
  by_cases halign : a.length % 8 = 0
  · have halign' : b.length % 8 = 0 := by omega
    rw [if_pos halign, if_pos halign'] at h
    have hcount : byteCount a.length = byteCount b.length := by
      rw [← length_pack, h, length_pack]
    rw [byteCount_eq, byteCount_eq] at hcount
    exact pack_inj (by omega) h
  · rw [if_neg halign, if_neg (by omega)] at h
    -- The marker is the last bit that is set, so it stands at the same place in both.
    have hlen : a.length = b.length :=
      Nat.le_antisymm (le_length_of_pack_concat_eq h) (le_length_of_pack_concat_eq h.symm)
    have hconcat : a ++ [true] = b ++ [true] := pack_inj (by simp [hlen]) h
    exact List.append_cancel_right hconcat

end Bits

/-! ## Configurations -/

/-- A configuration tells the output length that it was made for. -/
theorem Config.encode_inj {bits bits' : Nat} (hbits : bits < UInt64.size)
    (hbits' : bits' < UInt64.size) (h : encode bits = encode bits') : bits = bits' := by
  -- The length stands between the same bytes on both sides.
  have hword : LittleEndian.wordBytes (UInt64.ofNat bits) =
      LittleEndian.wordBytes (UInt64.ofNat bits') :=
    List.append_cancel_left (List.append_cancel_right h)
  have htoNat := congrArg UInt64.toNat (LittleEndian.wordBytes_inj hword)
  rwa [UInt64.toNat_ofNat_of_lt' hbits, UInt64.toNat_ofNat_of_lt' hbits'] at htoNat

/-! ## The passes of a transcript -/

open Ubi.Blockwise (calls keyed passBits pass_eq_replay filter_calls calls_inj calls_ne_nil)

variable {s : StateSize} {σ : Type}

/-- The calls of the pass over a key. An empty key has none. -/
def keyCalls (s : StateSize) (key : Bytes) : List (Tweak × Block s) :=
  if key = [] then [] else calls s .key key false

/-- The calls of the pass over the configuration. -/
def configCalls (s : StateSize) (bits : Nat) : List (Tweak × Block s) :=
  calls s .config (Config.encode bits) false

/-- The calls of the pass over a message. -/
def messageCalls (s : StateSize) (message : Bits) : List (Tweak × Block s) :=
  calls s .message message.padded (message.length % 8 ≠ 0)

/-- The chaining value that a message starts from, as a replay of the calls before it. -/
theorem keyed_eq_replay (c : Compression s σ) (key : Bytes) (bits : Nat) :
    keyed c key bits = c.replay c.initial (keyCalls s key ++ configCalls s bits) := by
  unfold keyed keyCalls configCalls
  rw [c.replay_append, pass_eq_replay]
  -- An empty key has neither a pass nor calls.
  by_cases hkey : key = []
  · rw [if_pos hkey, if_pos hkey]
    rfl
  · rw [if_neg hkey, if_neg hkey, pass_eq_replay]

/-- The chaining value of a message, as a replay of the calls of all three passes. -/
theorem chaining_eq_replay (c : Compression s σ) (u : Ubi s σ) (key : Bytes) (bits : Nat)
    (message : Bits) :
    (((u.init c key bits).absorbBits c message.pack message.length).finishPass c).chaining =
      c.replay c.initial (keyCalls s key ++ configCalls s bits ++ messageCalls s message) := by
  have hlen : message.length ≤ 8 * message.pack.length := by
    rw [Bits.length_pack, byteCount_eq]
    omega
  -- The message is its packed bits and nothing before them.
  have hread := (Ubi.hasRead_init (c := c) u key bits).absorbBits rfl hlen
  rw [List.take_of_length_le (Nat.le_of_eq (Bits.length_pack _)), Bits.leading_pack,
    List.nil_append] at hread
  rw [hread.chaining_finishPass, passBits, pass_eq_replay, keyed_eq_replay,
    ← c.replay_append]
  rfl

/-- The transcript is the calls of the three passes. -/
theorem transcript_eq (s : StateSize) (key : Bytes) (bits : Nat) (message : Bits) :
    transcript s key bits message =
      keyCalls s key ++ configCalls s bits ++ messageCalls s message :=
  (chaining_eq_replay _ _ key bits message).trans (Compression.record_replay [] _)

/-- Hashing with any compression function makes the calls of the transcript. -/
theorem chaining_eq_replay_transcript (c : Compression s σ) (u : Ubi s σ) (key : Bytes)
    (bits : Nat) (message : Bits) :
    (((u.init c key bits).absorbBits c message.pack message.length).finishPass c).chaining =
      c.replay c.initial (transcript s key bits message) := by
  rw [chaining_eq_replay, transcript_eq]

/-- The calls of a transcript that carry the type of a pass. -/
theorem filter_transcript (s : StateSize) (key : Bytes) (bits : Nat) (message : Bits)
    (t : BlockType) :
    (transcript s key bits message).filter (fun call => call.1.blockType? = some t) =
      (if .key = t then keyCalls s key else []) ++
        (if .config = t then configCalls s bits else []) ++
        (if .message = t then messageCalls s message else []) := by
  rw [transcript_eq, List.filter_append, List.filter_append, configCalls, filter_calls,
    messageCalls, filter_calls, keyCalls]
  -- The part of the key needs a case of its own, as an empty key has no pass.
  by_cases hkey : key = []
  · simp [hkey]
  · rw [if_neg hkey, filter_calls]

/-- The calls of a key pass, or that there are none, tell the key. -/
theorem keyCalls_inj {key key' : Bytes} (h : keyCalls s key = keyCalls s key') : key = key' := by
  unfold keyCalls at h
  -- No pass is without a call, so the transcript shows whether there is a key.
  by_cases hkey : key = [] <;> by_cases hkey' : key' = []
  · rw [hkey, hkey']
  · rw [if_pos hkey, if_neg hkey'] at h
    exact (calls_ne_nil _ _ _ h.symm).elim
  · rw [if_neg hkey, if_pos hkey'] at h
    exact (calls_ne_nil _ _ _ h).elim
  · rw [if_neg hkey, if_neg hkey'] at h
    exact (calls_inj h).1

/-- **Transcripts are injective.** For every state size, the tweaks and blocks that are compressed
    for a message tell the key, the output length, which is a 64-bit number, and every bit of the
    message. -/
theorem transcript_injective {key key' : Bytes} {bits bits' : Nat} {message message' : Bits}
    (hbits : bits < UInt64.size) (hbits' : bits' < UInt64.size)
    (h : transcript s key bits message = transcript s key' bits' message') :
    key = key' ∧ bits = bits' ∧ message = message' := by
  -- Each pass is what is left of the transcript when only its type is kept.
  have hfilter (t : BlockType) :=
    congrArg (List.filter fun call => call.1.blockType? = some t) h
  simp only [filter_transcript] at hfilter
  have hkey : keyCalls s key = keyCalls s key' := by simpa using hfilter .key
  have hconfig : configCalls s bits = configCalls s bits' := by simpa using hfilter .config
  have hmessage : messageCalls s message = messageCalls s message' := by
    simpa using hfilter .message
  have ⟨hpadded, hflag⟩ := calls_inj hmessage
  exact ⟨keyCalls_inj hkey, Config.encode_inj hbits hbits' (calls_inj hconfig).1,
    Bits.padded_inj hflag hpadded⟩

/-- Bits behind the end of a message do not change its transcript, and a padded bit is told apart
    from the byte that it is padded to. -/
theorem transcript_injective_partial_byte :
    let message := Bits.leading [0xbf] 3
    256 < UInt64.size ∧
    transcript .skein256 [1] 256 message = transcript .skein256 [1] 256 [true, false, true] ∧
    message = [true, false, true] ∧
    transcript .skein256 [1] 256 [true] ≠ transcript .skein256 [1] 256 (Bits.ofBytes [0xc0]) := by
  intro message
  have hbits : 256 < UInt64.size := by decide
  have hsame : transcript .skein256 [1] 256 message =
      transcript .skein256 [1] 256 [true, false, true] := rfl
  refine ⟨hbits, hsame, (transcript_injective hbits hbits hsame).2.2, fun h => ?_⟩
  have hmessage : [true] = Bits.ofBytes [0xc0] := (transcript_injective hbits hbits h).2.2
  exact absurd hmessage (by decide)

end SkeinHash
