import SkeinHash.Context.Call
import SkeinHash.Proofs.HashPasses

/-!
# What the operations of a context do

One lemma for each operation and each of its outcomes. A context that takes in a message is
described by the chaining value the message started from and by its bits so far; how it came there
does not matter.

- `Absorbing`: a context inside a message
- `SameSaved`: the saved keyed state stays
- `initKeyed_of_pos`, `initFromSaved_of_some`: the beginning of a message
- `Absorbing.update`, `Absorbing.updateBits`, `Absorbing.finish`: the rest of it
-/

namespace SkeinHash.Context

open Ubi.Blockwise (keyed output passBits)

variable {s : StateSize}

/-! ## Contexts inside a message -/

/-- `ctx` takes in a message for an output of `bits` bits. The message started from the chaining
    value `g`, and `message` is what has been taken in. -/
structure Absorbing (ctx : Context s) (g : Block s) (bits : Nat) (message : Bits) : Prop where
  phase_eq : ctx.phase = .absorbing bits
  hasRead : Ubi.HasRead (.threefish s) ctx.state g .message message

/-- `ctx'` has the saved keyed state of `ctx`. -/
structure SameSaved (ctx ctx' : Context s) : Prop where
  savedBits_eq : ctx'.savedBits = ctx.savedBits
  saved_eq : ctx'.state.saved = ctx.state.saved

/-! ## The beginning of a message -/

/-- No output at all is refused, and the context stays as it is. -/
theorem initKeyed_zero (ctx : Context s) (key : Bytes) :
    ctx.initKeyed key 0 = (.error .outputBits, ctx) := rfl

/-- A message starts behind the passes over key and configuration. What was saved stays. -/
theorem initKeyed_of_pos (ctx : Context s) (key : Bytes) {bits : Nat} (hbits : bits ≠ 0) :
    ∃ ctx', ctx.initKeyed key bits = (.ok (), ctx') ∧ SameSaved ctx ctx' ∧
      Absorbing ctx' (keyed (.threefish s) key bits) bits [] := by
  unfold initKeyed
  rw [if_neg hbits]
  -- The passes end with `keyed` in the chaining value, from any state before them.
  exact ⟨_, rfl, ⟨rfl, Ubi.saved_init _ _ _⟩, rfl, Ubi.hasRead_init _ _ _⟩

theorem initWithKey_zero (ctx : Context s) (key : Bytes) :
    ctx.initWithKey key 0 = (.error .outputBits, ctx) := rfl

/-- The keyed state that is saved is the one the message starts from. -/
theorem initWithKey_of_pos (ctx : Context s) (key : Bytes) {bits : Nat} (hbits : bits ≠ 0) :
    ∃ ctx', ctx.initWithKey key bits = (.ok (), ctx') ∧ ctx'.savedBits = some bits ∧
      ctx'.state.saved = keyed (.threefish s) key bits ∧
      Absorbing ctx' (keyed (.threefish s) key bits) bits [] := by
  obtain ⟨ctx', hinit, _, habsorbing⟩ := ctx.initKeyed_of_pos key hbits
  unfold initWithKey
  rw [hinit]
  -- Nothing of the message has been read yet, so the chaining value that is saved is `keyed`.
  exact ⟨_, rfl, rfl, habsorbing.hasRead.chaining_of_nil, habsorbing.phase_eq,
    habsorbing.hasRead.save⟩

/-- Without a saved state there is nothing to start from. -/
theorem initFromSaved_of_none {ctx : Context s} (hsaved : ctx.savedBits = none) :
    ctx.initFromSaved = (.error .noSavedKeyState, ctx) := by
  unfold initFromSaved
  rw [hsaved]

/-- A message can start from the saved state, for the output length saved with it. -/
theorem initFromSaved_of_some {ctx : Context s} {bits : Nat} (hsaved : ctx.savedBits = some bits) :
    ∃ ctx', ctx.initFromSaved = (.ok (), ctx') ∧ SameSaved ctx ctx' ∧
      Absorbing ctx' ctx.state.saved bits [] := by
  unfold initFromSaved
  rw [hsaved]
  exact ⟨_, rfl, ⟨hsaved.symm, rfl⟩, rfl, Ubi.hasRead_restore _⟩

/-! ## Outside of a message -/

section Outside

variable {ctx : Context s} {e : SequenceError}

/-- Outside of a message no input is accepted either, for the same reason. -/
theorem checkAccepting_of_outside (h : ctx.checkAbsorbing = .error e) :
    ctx.checkAccepting = .error e := by
  unfold checkAccepting
  rw [h]

/-- Input that is not accepted leaves the context as it is. -/
theorem update_of_refused (h : ctx.checkAccepting = .error e) (data : Bytes) :
    ctx.update data = (.error e, ctx) := by
  unfold update
  rw [h]

/-- So does refused input that is counted in bits, whatever the count. -/
theorem updateBits_of_refused (h : ctx.checkAccepting = .error e) (data : Bytes) (bitCount : Nat) :
    ctx.updateBits data bitCount = (.error (.sequence e), ctx) := by
  unfold updateBits
  rw [h]

/-- Outside of a message there is no output, and the buffer is not written. -/
theorem finish_of_outside (h : ctx.checkAbsorbing = .error e) (out : Bytes) :
    ctx.finish out = (.error (.sequence e), out, ctx) := by
  unfold finish
  rw [h]

end Outside

/-! ## Inside a message -/

namespace Absorbing

variable {ctx : Context s} {g : Block s} {bits : Nat} {message : Bits}

/-- Inside a message the output length is known. -/
theorem checkAbsorbing_eq (h : Absorbing ctx g bits message) :
    ctx.checkAbsorbing = .ok bits := by
  unfold checkAbsorbing
  rw [h.phase_eq]

/-- Whether the message has ended inside a byte is a flag of the tweak. -/
theorem checkAccepting_eq (h : Absorbing ctx g bits message) :
    ctx.checkAccepting = if message.length % 8 = 0 then .ok () else .error .partialByteNotLast := by
  unfold checkAccepting
  rw [h.checkAbsorbing_eq, h.hasRead.isBitPad_tweak]
  -- The flag is set just if the bits do not fill their last byte.
  by_cases halign : message.length % 8 = 0
  · rw [if_pos halign, decide_eq_false (not_not_intro halign)]
    rfl
  · rw [if_neg halign, decide_eq_true halign]
    rfl

/-- After a partial byte no input is accepted. -/
theorem checkAccepting_of_partial (h : Absorbing ctx g bits message)
    (hpartial : message.length % 8 ≠ 0) : ctx.checkAccepting = .error .partialByteNotLast := by
  rw [h.checkAccepting_eq, if_neg hpartial]

section Aligned

variable (h : Absorbing ctx g bits message) (halign : message.length % 8 = 0)

include h halign

/-- Whole bytes are appended to the message. -/
theorem update (data : Bytes) :
    ∃ ctx', ctx.update data = (.ok (), ctx') ∧ SameSaved ctx ctx' ∧
      Absorbing ctx' g bits (message ++ Bits.ofBytes data) := by
  unfold Context.update
  rw [h.checkAccepting_eq, if_pos halign]
  exact ⟨_, rfl, ⟨rfl, Ubi.saved_absorb _ _⟩, h.phase_eq, h.hasRead.absorb halign data⟩

/-- Input that is counted in bits is appended to the message, up to its last bit. -/
theorem updateBits {data : Bytes} {bitCount : Nat} (hlen : bitCount ≤ 8 * data.length) :
    ∃ ctx', ctx.updateBits data bitCount = (.ok (), ctx') ∧ SameSaved ctx ctx' ∧
      Absorbing ctx' g bits (message ++ Bits.leading data bitCount) := by
  unfold Context.updateBits
  -- The context accepts input, and the data has all the bytes that the count reaches into.
  rw [h.checkAccepting_eq, if_pos halign, leadingBytes, if_pos ((byteCount_le_iff _ _).mpr hlen)]
  exact ⟨_, rfl, ⟨rfl, Ubi.saved_absorbBits _ _ _⟩, h.phase_eq, h.hasRead.absorbBits halign hlen⟩

/-- Fewer bits than are counted are refused, and the message stays as it is. -/
theorem updateBits_of_short {data : Bytes} {bitCount : Nat} (hlen : 8 * data.length < bitCount) :
    ctx.updateBits data bitCount = (.error (.parameter .bitCount), ctx) := by
  -- The bytes are too few just if the bits are.
  have hbytes : ¬ byteCount bitCount ≤ data.length := by
    rw [byteCount_le_iff]
    omega
  unfold Context.updateBits
  rw [h.checkAccepting_eq, if_pos halign, leadingBytes, if_neg hbytes]

end Aligned

/-- The output is written over the start of the buffer, and the message is over. -/
theorem finish (h : Absorbing ctx g bits message) {out : Bytes}
    (hroom : byteCount bits ≤ out.length) :
    ∃ ctx', ctx.finish out = (.ok (), output (.threefish s)
        (passBits (.threefish s) g .message message) bits ++ out.drop (byteCount bits), ctx') ∧
      SameSaved ctx ctx' ∧ ctx'.phase = .finalized bits := by
  unfold Context.finish
  rw [h.checkAbsorbing_eq]
  -- What is written is the output of the bits so far, by `finish_fst`.
  simp only [if_neg (Nat.not_lt_of_le hroom), Ubi.finish_fst h.hasRead]
  exact ⟨_, rfl, ⟨rfl, Ubi.saved_finish _ _⟩, rfl⟩

/-- A buffer that is too short is refused and not written. -/
theorem finish_of_short (h : Absorbing ctx g bits message) {out : Bytes}
    (hroom : out.length < byteCount bits) :
    ctx.finish out = (.error (.parameter .outputTooSmall), out, ctx) := by
  unfold Context.finish
  rw [h.checkAbsorbing_eq]
  simp only [if_pos hroom]

end Absorbing

/-! ## Operations as calls -/

section Calls

variable {ctx ctx' : Context s}

/-- A call has the outcome of its operation, and writes nothing unless it asks for the output. -/
theorem apply_init {bits : Nat} {r : Except ParameterError Unit} (h : ctx.init bits = (r, ctx')) :
    ctx.apply (.init bits) = (⟨r.mapError .parameter, []⟩, ctx') := by
  simp only [apply, h]

theorem apply_initWithKey {key : Bytes} {bits : Nat} {r : Except ParameterError Unit}
    (h : ctx.initWithKey key bits = (r, ctx')) :
    ctx.apply (.initWithKey key bits) = (⟨r.mapError .parameter, []⟩, ctx') := by
  simp only [apply, h]

theorem apply_initFromSaved {r : Except SequenceError Unit} (h : ctx.initFromSaved = (r, ctx')) :
    ctx.apply .initFromSaved = (⟨r.mapError .sequence, []⟩, ctx') := by
  simp only [apply, h]

theorem apply_update {data : Bytes} {r : Except SequenceError Unit}
    (h : ctx.update data = (r, ctx')) :
    ctx.apply (.update data) = (⟨r.mapError .sequence, []⟩, ctx') := by
  simp only [apply, h]

theorem apply_updateBits {data : Bytes} {bitCount : Nat} {r : Except Failure Unit}
    (h : ctx.updateBits data bitCount = (r, ctx')) :
    ctx.apply (.updateBits data bitCount) = (⟨r, []⟩, ctx') := by
  simp only [apply, h]

/-- The call `finish` has the outcome of the operation and shows the buffer after it. -/
theorem apply_finish {out out' : Bytes} {r : Except Failure Unit}
    (h : ctx.finish out = (r, out', ctx')) : ctx.apply (.finish out) = (⟨r, out'⟩, ctx') := by
  simp only [apply, h]

end Calls

/-! ## Runs -/

/-- Every call of a run has a reply. -/
theorem length_run (ctx : Context s) (calls : List Call) :
    (ctx.run calls).1.length = calls.length := by
  induction calls generalizing ctx with
  | nil => rfl
  | cons call rest ih => exact congrArg Nat.succ (ih (ctx.apply call).2)

/-- A run goes on from the context that its first part has left. -/
theorem run_append (ctx : Context s) (before after : List Call) :
    ctx.run (before ++ after) =
      ((ctx.run before).1 ++ ((ctx.run before).2.run after).1,
        ((ctx.run before).2.run after).2) := by
  induction before generalizing ctx with
  | nil => rfl
  | cons call rest ih =>
    simp only [List.cons_append, run, ih]

/-- What the three calls of a hash give does not depend on what the context has done before. -/
theorem run_initWithKey_updateBits_finish (ctx : Context s) (key : Bytes) {bits bitCount : Nat}
    {data out : Bytes} (hbits : bits ≠ 0) (hlen : bitCount ≤ 8 * data.length)
    (hroom : byteCount bits ≤ out.length) :
    (ctx.run [.initWithKey key bits, .updateBits data bitCount, .finish out]).1 =
      [⟨.ok (), []⟩, ⟨.ok (), []⟩, ⟨.ok (), output (.threefish s) (passBits (.threefish s)
        (keyed (.threefish s) key bits) .message (Bits.leading data bitCount)) bits ++
          out.drop (byteCount bits)⟩] := by
  obtain ⟨ctx₁, hinit, _, _, habsorbing₁⟩ := ctx.initWithKey_of_pos key hbits
  obtain ⟨ctx₂, hinput, _, habsorbing₂⟩ := habsorbing₁.updateBits rfl hlen
  obtain ⟨ctx₃, houtput, _, _⟩ := habsorbing₂.finish hroom
  -- The message was empty before the only input, so it is that input.
  rw [List.nil_append] at houtput
  simp only [run, apply_initWithKey hinit, apply_updateBits hinput, apply_finish houtput]
  rfl

end SkeinHash.Context

namespace SkeinHash.Mac.IncrementalContext

/-- A run of an incremental MAC is a run of its hashing context. -/
theorem run_eq {s : StateSize} (ctx : IncrementalContext s) (calls : List Call) :
    ctx.run calls = ((ctx.inner.run (calls.map Call.inner)).1,
      ⟨(ctx.inner.run (calls.map Call.inner)).2⟩) := by
  -- Each call is one on the hashing context inside, by `apply_eq`.
  induction calls generalizing ctx with
  | nil => rfl
  | cons call rest ih =>
    simp only [run, apply_eq, ih, List.map_cons, Context.run]

end SkeinHash.Mac.IncrementalContext
