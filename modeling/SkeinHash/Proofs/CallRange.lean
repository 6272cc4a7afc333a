import SkeinHash.Proofs.FrontEnds
import SkeinHash.Proofs.PassRange

/-!
# Calls stay in range

Every state that calls can lead to holds at most a block of pending bytes and lengths of one word.
From such a state every call, with arguments of any length that can exist, passes all of its checks,
gives what it gives without them, and leads to such a state again.

- `Context.InRange`: what holds of every context that calls can lead to
- `InRange.call?_eq`, `InRange.apply`, `InRange.run`: one call, and all calls of a run
- `calls_stay_in_range`: contexts, incremental MACs, digests, tags and ciphers
-/

namespace SkeinHash

variable {s : StateSize}

/-! ## Contexts -/

namespace Context

open RangeChecked

/-- A call with arguments that can exist: byte strings are shorter than half of what a word can
    count, and numbers are words. -/
def Call.Fits : Call → Prop
  | init bits => bits < UInt64.size
  | initWithKey key bits => key.length < 2 ^ 63 ∧ bits < UInt64.size
  | initFromSaved => True
  | update data => data.length < 2 ^ 63
  | updateBits data bitCount => data.length < 2 ^ 63 ∧ bitCount < UInt64.size
  | finish out => out.length < 2 ^ 63

/-- What holds of every context that calls can lead to. -/
structure InRange (ctx : Context s) : Prop where
  numPending_le : ctx.state.numPending ≤ s.blockLen
  outputBits_lt : ctx.outputBits < UInt64.size
  savedBits_lt : ∀ bits, ctx.savedBits = some bits → bits < UInt64.size

/-- A new context has nothing pending and no lengths. -/
theorem inRange_new (s : StateSize) : InRange (Context.new s) where
  numPending_le := Nat.zero_le _
  outputBits_lt := show 0 < UInt64.size by decide
  savedBits_lt := nofun

/-- Starting a message passes its checks, be the length refused or not. -/
theorem initKeyed?_eq (ctx : Context s) {key : Bytes} (hkey : key.length < 2 ^ 63) (bits : Nat) :
    initKeyed? ctx key bits = some (ctx.initKeyed key bits) := by
  unfold initKeyed? initKeyed
  rw [init?_eq _ hkey]
  split <;> rfl

/-- So does starting it and saving the keyed state. -/
theorem initWithKey?_eq (ctx : Context s) {key : Bytes} (hkey : key.length < 2 ^ 63)
    (bits : Nat) : initWithKey? ctx key bits = some (ctx.initWithKey key bits) := by
  unfold initWithKey? initWithKey
  rw [initKeyed?_eq ctx hkey]
  -- Saving has nothing to check.
  rcases ctx.initKeyed key bits with ⟨e | _, ctx'⟩ <;> rfl

namespace InRange

variable {ctx : Context s} (h : InRange ctx)

include h

/-! ### Every call passes its checks -/

/-- Input passes its checks, accepted or not. -/
theorem update?_eq {data : Bytes} (hlen : data.length < 2 ^ 63) :
    update? ctx data = some (ctx.update data) := by
  unfold update? update
  rw [absorb?_eq h.numPending_le hlen]
  cases ctx.checkAccepting <;> rfl

/-- Input that is counted in bits passes its checks, accepted, refused or too short. -/
theorem updateBits?_eq {data : Bytes} (hlen : data.length < 2 ^ 63) {bitCount : Nat}
    (hcount : bitCount < UInt64.size) :
    updateBits? ctx data bitCount = some (ctx.updateBits data bitCount) := by
  -- Only the bytes that hold the bits are taken in.
  have htake : (data.take (byteCount bitCount)).length < 2 ^ 63 := by
    rw [List.length_take]
    omega
  unfold updateBits? updateBits leadingBytes
  rw [byteCount?_eq hcount]
  simp only [Option.bind_eq_bind, Option.bind_some, absorbBits?_eq h.numPending_le htake]
  cases ctx.checkAccepting with
  | error e => rfl
  | ok =>
    by_cases hshort : data.length < byteCount bitCount
    · -- The checked form looks for too few bytes, the plain one for enough of them.
      simp only [if_pos hshort, if_neg (Nat.not_le_of_lt hshort)]
      rfl
    · simp only [if_neg hshort, if_pos (Nat.le_of_not_lt hshort)]
      rfl

/-- The output length of a message is a word. -/
theorem bits_lt_of_checkAbsorbing {bits : Nat} (hcheck : ctx.checkAbsorbing = .ok bits) :
    bits < UInt64.size := by
  have hbits := h.outputBits_lt
  unfold checkAbsorbing at hcheck
  unfold outputBits at hbits
  -- Only a context inside a message has a length to give.
  cases hphase : ctx.phase <;> simp only [hphase, reduceCtorEq, Except.ok.injEq] at hcheck hbits
  case absorbing => exact hcheck ▸ hbits

/-- Output passes its checks, whatever the length of the buffer. -/
theorem finishInto?_eq {out : Bytes} (hlen : out.length < 2 ^ 63) :
    finishInto? ctx out = some (ctx.finish out) := by
  unfold finishInto? finish
  cases hcheck : ctx.checkAbsorbing with
  | error e => rfl
  | ok bits =>
    have hbits := h.bits_lt_of_checkAbsorbing hcheck
    simp only [byteCount?_eq hbits, Option.bind_eq_bind, Option.bind_some]
    -- Too small a buffer is refused before anything is cut from it.
    by_cases hshort : out.length < byteCount bits
    · simp only [if_pos hshort]
      rfl
    · -- The part of the buffer that is written to is as long as the output.
      have htake : (out.take (byteCount bits)).length = byteCount bits :=
        List.length_take_of_le (Nat.le_of_not_lt hshort)
      simp only [if_neg hshort, finish?_eq h.numPending_le hbits htake (by omega)]
      rfl

/-- Every call whose arguments can exist passes its checks. -/
theorem call?_eq {call : Call} (hcall : call.Fits) : call? ctx call = some (ctx.apply call) := by
  cases call <;> unfold call? apply
  case init bits => simp only [initKeyed?_eq ctx (show ([] : Bytes).length < 2 ^ 63 by decide)]; rfl
  case initWithKey key bits => simp only [initWithKey?_eq ctx hcall.1]; rfl
  case initFromSaved => rfl
  case update data => simp only [h.update?_eq hcall]; rfl
  case updateBits data bitCount => simp only [h.updateBits?_eq hcall.1 hcall.2]; rfl
  case finish out => simp only [h.finishInto?_eq hcall]; rfl

/-! ### Every call leads to a context in range -/

/-- A message that has started has nothing pending and the length that was asked for. -/
theorem initKeyed (key : Bytes) {bits : Nat} (hbits : bits < UInt64.size) :
    InRange (ctx.initKeyed key bits).2 := by
  unfold Context.initKeyed
  split
  · exact h
  · exact ⟨Nat.zero_le _, hbits, h.savedBits_lt⟩

/-- The length that is saved is the one that was asked for. -/
theorem initWithKey (key : Bytes) {bits : Nat} (hbits : bits < UInt64.size) :
    InRange (ctx.initWithKey key bits).2 := by
  have hstart := h.initKeyed key hbits
  unfold Context.initWithKey
  -- Whether the message has started decides whether anything is saved.
  revert hstart
  rcases ctx.initKeyed key bits with ⟨e | _, ctx'⟩ <;> intro hstart
  · exact hstart
  · exact ⟨hstart.numPending_le, hstart.outputBits_lt, fun b hb => Option.some.inj hb ▸ hbits⟩

/-- A message that starts from the saved state has the saved length. -/
theorem initFromSaved : InRange ctx.initFromSaved.2 := by
  unfold Context.initFromSaved
  cases hsaved : ctx.savedBits with
  | none => exact h
  | some bits =>
    have hbits := h.savedBits_lt bits hsaved
    exact ⟨Nat.zero_le _, hbits, fun b hb => Option.some.inj hb ▸ hbits⟩

/-- Input leaves at most a block pending. -/
theorem update (data : Bytes) : InRange (ctx.update data).2 := by
  unfold Context.update
  cases ctx.checkAccepting with
  | error e => exact h
  | ok =>
    exact ⟨Ubi.numPending_absorb_le h.numPending_le data, h.outputBits_lt, h.savedBits_lt⟩

/-- Input that is counted in bits leaves at most a block pending. -/
theorem updateBits (data : Bytes) (bitCount : Nat) : InRange (ctx.updateBits data bitCount).2 := by
  unfold Context.updateBits
  cases ctx.checkAccepting with
  | error e => exact h
  | ok =>
    -- With too few bits nothing is absorbed.
    cases leadingBytes data bitCount with
    | error e => exact h
    | ok data =>
      exact ⟨Ubi.numPending_absorbBits_le h.numPending_le data bitCount, h.outputBits_lt,
        h.savedBits_lt⟩

/-- Output leaves at most a block pending, and the length stays. -/
theorem finish (out : Bytes) : InRange (ctx.finish out).2.2 := by
  unfold Context.finish
  cases hcheck : ctx.checkAbsorbing with
  | error e => exact h
  | ok bits =>
    -- Only an output that fits changes the state.
    by_cases hshort : out.length < byteCount bits
    · simp only [if_pos hshort]
      exact h
    · simp only [if_neg hshort]
      exact ⟨Ubi.numPending_finish_le _ _, h.bits_lt_of_checkAbsorbing hcheck, h.savedBits_lt⟩

/-- Every call whose arguments can exist leads to a context in range. -/
theorem apply {call : Call} (hcall : call.Fits) : InRange (ctx.apply call).2 := by
  -- Of the arguments only the output lengths matter here.
  cases call with
  | init bits => exact h.initKeyed [] hcall
  | initWithKey key bits => exact h.initWithKey key hcall.2
  | initFromSaved => exact h.initFromSaved
  | update data => exact h.update data
  | updateBits data bitCount => exact h.updateBits data bitCount
  | finish out => exact h.finish out

omit h in
/-- So does every run of such calls. -/
theorem run (h : InRange ctx) {calls : List Call} (hcalls : ∀ call ∈ calls, call.Fits) :
    InRange (ctx.run calls).2 := by
  -- Along the run every call finds a context in range.
  induction calls generalizing ctx with
  | nil => exact h
  | cons call rest ih =>
    exact ih (h.apply (hcalls call (by simp))) fun c hc => hcalls c (by simp [hc])

end InRange

end Context

/-! ## Digests and tags -/

namespace DigestContext

open RangeChecked

/-- What holds of every digest in the making. -/
structure InRange (ctx : DigestContext) : Prop where
  numPending_le : ctx.state.numPending ≤ ctx.algorithm.size.blockLen
  known : ctx.algorithm ∈ Algorithm.all

/-- A digest starts with nothing pending. -/
theorem inRange_withKey {a : Algorithm} (ha : a ∈ Algorithm.all) (key : Bytes) :
    InRange (withKey a key) := ⟨Nat.zero_le _, ha⟩

/-- Starting a digest passes its checks. -/
theorem withKey?_eq (a : Algorithm) {key : Bytes} (hkey : key.length < 2 ^ 63) :
    withKey? a key = some (withKey a key) := by
  unfold withKey? withKey
  rw [init?_eq _ hkey]
  rfl

namespace InRange

variable {ctx : DigestContext} (h : InRange ctx)

include h

/-- Input of a digest leaves at most a block pending. -/
theorem update (data : Bytes) : InRange (ctx.update data) :=
  ⟨Ubi.numPending_absorb_le h.numPending_le data, h.known⟩

omit h in
/-- So do any pieces of it. -/
theorem foldl_update (h : InRange ctx) (pieces : List Bytes) :
    InRange (pieces.foldl DigestContext.update ctx) := by
  induction pieces generalizing ctx with
  | nil => exact h
  | cons piece rest ih => exact ih (h.update piece)

/-- Input of a digest passes its checks. -/
theorem updateDigest?_eq {data : Bytes} (hlen : data.length < 2 ^ 63) :
    updateDigest? ctx data = some (ctx.update data) := by
  unfold updateDigest?
  rw [absorb?_eq h.numPending_le hlen]
  rfl

/-- Every algorithm has its output in the buffer for the longest one. -/
theorem digest?_eq : digest? ctx = some ctx.finish := by
  have hlen : byteCount ctx.algorithm.outputBits ≤ Algorithm.maxOutputLen :=
    Algorithm.outputLen_le_maxOutputLen _ h.known
  have hmax : Algorithm.maxOutputLen = 128 := rfl
  have hsize : UInt64.size = 2 ^ 64 := rfl
  have hcount := byteCount_eq ctx.algorithm.outputBits
  have hroom : byteCount ctx.algorithm.outputBits ≤
      (List.replicate Algorithm.maxOutputLen (0 : UInt8)).length := by
    rw [List.length_replicate]
    exact hlen
  have hout := List.length_take_of_le hroom
  -- The buffer is cut to the length of the output, which it is long enough for.
  unfold digest?
  simp only [byteCount?_eq (show ctx.algorithm.outputBits < UInt64.size by omega),
    splitAt?_eq hroom, finish?_eq h.numPending_le
      (show ctx.algorithm.outputBits < UInt64.size by omega) hout (by omega),
    Option.bind_eq_bind, Option.bind_some]
  rfl

end InRange

end DigestContext

/-! ## All calls -/

namespace RangeChecked

/-- **No call leaves its range.** From every state that calls can lead to, every call passes the
    checks before all of its steps, and not more than a block is pending after it: on contexts, on
    incremental MACs, on digests and tags in the making, and on ciphers. -/
theorem calls_stay_in_range :
    (∀ (s : StateSize) (before : List Context.Call) (call : Context.Call),
      (∀ c ∈ before, c.Fits) → call.Fits →
      let ctx := ((Context.new s).run before).2
      call? ctx call = some (ctx.apply call) ∧
        byteCount? ctx.outputBits = some ctx.outputLen ∧
        (ctx.apply call).2.state.numPending ≤ s.blockLen) ∧
    (∀ (s : StateSize) (before : List Mac.Call) (call : Mac.Call),
      (∀ c ∈ before, c.inner.Fits) → call.inner.Fits →
      let ctx := ((Mac.IncrementalContext.new s).run before).2
      macCall? ctx call = some (ctx.apply call) ∧
        byteCount? ctx.inner.outputBits = some ctx.outputLen ∧
        (ctx.apply call).2.inner.state.numPending ≤ s.blockLen) ∧
    (∀ a ∈ Algorithm.all, ∀ (key : Bytes) (pieces : List Bytes) (data : Bytes),
      key.length < 2 ^ 63 → data.length < 2 ^ 63 →
      let ctx := pieces.foldl DigestContext.update (DigestContext.withKey a key)
      let signing := pieces.foldl Mac.Signing.update (Mac.Signing.new (Mac.Key.ofBytes a key))
      withKey? a key = some (DigestContext.withKey a key) ∧
        updateDigest? ctx data = some (ctx.update data) ∧ digest? ctx = some ctx.finish ∧
        updateTag? signing data = some (signing.update data) ∧ tag? signing = some signing.finish ∧
        (ctx.update data).state.numPending ≤ ctx.algorithm.size.blockLen ∧
        (signing.update data).inner.state.numPending ≤ signing.inner.algorithm.size.blockLen) ∧
    (∀ (s : StateSize) (c : Threefish s) (block : Block s) (buffer : Bytes),
      encrypt? c block = some (c.encrypt block) ∧ decrypt? c block = some (c.decrypt block) ∧
        encryptBytes? c buffer = some (c.encryptBytes buffer) ∧
        decryptBytes? c buffer = some (c.decryptBytes buffer)) := by
  refine ⟨?contexts, ?macs, ?digests, ?ciphers⟩
  case contexts =>
    intro s before call hbefore hcall ctx
    have hctx : ctx.InRange := (Context.inRange_new s).run hbefore
    exact ⟨hctx.call?_eq hcall, byteCount?_eq hctx.outputBits_lt, (hctx.apply hcall).numPending_le⟩
  case macs =>
    intro s before call hbefore hcall ctx
    -- An incremental MAC has gone through the calls on its hashing context.
    have hinner : ctx.inner = ((Context.new s).run (before.map Mac.Call.inner)).2 := by
      simp only [ctx, Mac.IncrementalContext.run_eq]
      rfl
    have hctx : ctx.inner.InRange := by
      rw [hinner]
      refine (Context.inRange_new s).run fun c hc => ?_
      obtain ⟨c', hc', rfl⟩ := List.mem_map.mp hc
      exact hbefore c' hc'
    refine ⟨?_, byteCount?_eq hctx.outputBits_lt, ?_⟩
    · unfold macCall?
      rw [hctx.call?_eq hcall, Mac.IncrementalContext.apply_eq]
      rfl
    · rw [Mac.IncrementalContext.apply_eq]
      exact (hctx.apply hcall).numPending_le
  case digests =>
    intro a ha key pieces data hkey hdata ctx signing
    have hctx : ctx.InRange := (DigestContext.inRange_withKey ha key).foldl_update pieces
    have hsigning : signing = ⟨ctx⟩ := Mac.foldl_signing_update _ pieces
    have hle := (hctx.update data).numPending_le
    refine ⟨DigestContext.withKey?_eq a hkey, hctx.updateDigest?_eq hdata, hctx.digest?_eq, ?_, ?_,
      hle, ?_⟩
    · rw [hsigning, updateTag?, hctx.updateDigest?_eq hdata]
      rfl
    · rw [hsigning, tag?, hctx.digest?_eq]
      rfl
    · rw [hsigning]
      exact hle
  case ciphers =>
    intro s c block buffer
    exact ⟨encrypt?_eq c block, decrypt?_eq c block, encryptBytes?_eq c buffer,
      decryptBytes?_eq c buffer⟩

/-- A message that fills a block exactly and then ends inside a byte, and a buffer that is larger
    than the output. -/
theorem calls_stay_in_range_full_block :
    let before : List Context.Call :=
      [.initWithKey [1, 2] 11, .update (List.replicate 31 7), .updateBits [0xff] 3]
    let ctx := ((Context.new .skein256).run before).2
    (∀ c ∈ before, c.Fits) ∧ Context.Call.Fits (.finish [1, 2, 3]) ∧
      call? ctx (.finish [1, 2, 3]) = some (ctx.apply (.finish [1, 2, 3])) ∧
      Algorithm.skein512_384 ∈ Algorithm.all ∧
      digest? (DigestContext.withKey .skein512_384 [5]) =
        some (DigestContext.withKey .skein512_384 [5]).finish := by
  intro before ctx
  have hbefore : ∀ c ∈ before, c.Fits := by simp [before, Context.Call.Fits, UInt64.size]
  have hcall : Context.Call.Fits (.finish [1, 2, 3]) := by simp [Context.Call.Fits]
  have halgorithm : Algorithm.skein512_384 ∈ Algorithm.all := by decide
  -- A digest of 384 bits is made in the buffer for the longest one.
  have hdigest := calls_stay_in_range.2.2.1 .skein512_384 halgorithm [5] [] [] (by decide)
    (by decide)
  exact ⟨hbefore, hcall,
    (calls_stay_in_range.1 .skein256 before (.finish [1, 2, 3]) hbefore hcall).1, halgorithm,
    hdigest.2.2.1⟩

end RangeChecked

end SkeinHash
