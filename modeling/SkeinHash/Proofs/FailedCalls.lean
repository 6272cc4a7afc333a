import SkeinHash.Proofs.ContextOperations

/-!
# Failed calls leave no trace

Every operation makes all of its checks before its first change. So a call that fails leaves the
context and the buffer as they were, and a run in which the failed calls are left out goes on in the
same way.

- `initKeyed_cases` to `finish_cases`: an operation succeeds, or gives back what it was given
- `apply_of_failed`: so does every call
- `run_succeeding`: a run without its failed calls
- `failed_calls_leave_no_trace`: contexts, incremental MACs and ciphers
-/

namespace SkeinHash

variable {s : StateSize}

namespace Context

/-! ## Operations -/

section Operations

variable (ctx : Context s)

/-- A message begins, or is refused. -/
theorem initKeyed_cases (key : Bytes) (bits : Nat) :
    (∃ ctx', ctx.initKeyed key bits = (.ok (), ctx')) ∨
      ∃ e, ctx.initKeyed key bits = (.error e, ctx) := by
  unfold initKeyed
  split
  · exact .inr ⟨_, rfl⟩
  · exact .inl ⟨_, rfl⟩

/-- The keyed state is saved only behind an initialisation that succeeded. -/
theorem initWithKey_cases (key : Bytes) (bits : Nat) :
    (∃ ctx', ctx.initWithKey key bits = (.ok (), ctx')) ∨
      ∃ e, ctx.initWithKey key bits = (.error e, ctx) := by
  unfold initWithKey
  rcases ctx.initKeyed_cases key bits with ⟨ctx', hinit⟩ | ⟨e, hinit⟩ <;> rw [hinit]
  · exact .inl ⟨_, rfl⟩
  · exact .inr ⟨e, rfl⟩

/-- A message begins again, or there is nothing to begin it from. -/
theorem initFromSaved_cases :
    (∃ ctx', ctx.initFromSaved = (.ok (), ctx')) ∨ ∃ e, ctx.initFromSaved = (.error e, ctx) := by
  unfold initFromSaved
  split
  · exact .inr ⟨_, rfl⟩
  · exact .inl ⟨_, rfl⟩

/-- Data is absorbed, or refused. -/
theorem update_cases (data : Bytes) :
    (∃ ctx', ctx.update data = (.ok (), ctx')) ∨ ∃ e, ctx.update data = (.error e, ctx) := by
  unfold update
  split
  · exact .inr ⟨_, rfl⟩
  · exact .inl ⟨_, rfl⟩

/-- The bits are counted before any of them is taken in. -/
theorem updateBits_cases (data : Bytes) (bitCount : Nat) :
    (∃ ctx', ctx.updateBits data bitCount = (.ok (), ctx')) ∨
      ∃ e, ctx.updateBits data bitCount = (.error e, ctx) := by
  unfold updateBits
  -- The first check is whether a message goes on, the second whether there are enough bytes.
  split
  · exact .inr ⟨_, rfl⟩
  · split
    · exact .inr ⟨_, rfl⟩
    · exact .inl ⟨_, rfl⟩

/-- An output is given, or the buffer is given back. -/
theorem finish_cases (out : Bytes) :
    (∃ out' ctx', ctx.finish out = (.ok (), out', ctx')) ∨
      ∃ e, ctx.finish out = (.error e, out, ctx) := by
  unfold finish
  -- The first check is whether there is a message, the second whether its output fits.
  split
  · exact .inr ⟨_, rfl⟩
  · split
    · exact .inr ⟨_, rfl⟩
    · exact .inl ⟨_, _, rfl⟩

end Operations

/-! ## Calls -/

/-- A call succeeds, or gives back the buffer and the context that it was given. -/
theorem apply_cases (ctx : Context s) (call : Call) :
    (ctx.apply call).1.succeeded = true ∨
      ∃ e, ctx.apply call = (⟨.error e, call.buffer⟩, ctx) := by
  -- One case for each operation, with a buffer in the last one only.
  cases call with
  | init bits =>
    rcases ctx.initKeyed_cases [] bits with ⟨ctx', h⟩ | ⟨e, h⟩ <;> rw [apply_init h]
    · exact .inl rfl
    · exact .inr ⟨_, rfl⟩
  | initWithKey key bits =>
    rcases ctx.initWithKey_cases key bits with ⟨ctx', h⟩ | ⟨e, h⟩ <;> rw [apply_initWithKey h]
    · exact .inl rfl
    · exact .inr ⟨_, rfl⟩
  | initFromSaved =>
    rcases ctx.initFromSaved_cases with ⟨ctx', h⟩ | ⟨e, h⟩ <;> rw [apply_initFromSaved h]
    · exact .inl rfl
    · exact .inr ⟨_, rfl⟩
  | update data =>
    rcases ctx.update_cases data with ⟨ctx', h⟩ | ⟨e, h⟩ <;> rw [apply_update h]
    · exact .inl rfl
    · exact .inr ⟨_, rfl⟩
  | updateBits data bitCount =>
    rcases ctx.updateBits_cases data bitCount with ⟨ctx', h⟩ | ⟨e, h⟩ <;> rw [apply_updateBits h]
    · exact .inl rfl
    · exact .inr ⟨_, rfl⟩
  | finish out =>
    rcases ctx.finish_cases out with ⟨out', ctx', h⟩ | ⟨e, h⟩ <;> rw [apply_finish h]
    · exact .inl rfl
    · exact .inr ⟨_, rfl⟩

/-- A call that fails gives back the context and the buffer. -/
theorem apply_of_failed {ctx : Context s} {call : Call}
    (h : (ctx.apply call).1.succeeded = false) :
    (ctx.apply call).2 = ctx ∧ (ctx.apply call).1.out = call.buffer := by
  rcases ctx.apply_cases call with hok | ⟨e, hcall⟩
  · rw [hok] at h
    cases h
  · rw [hcall]
    exact ⟨rfl, rfl⟩

/-! ## Runs -/

/-- A call is left out if its reply is a failure. -/
theorem succeeding_cons {κ : Type} (call : κ) (rest : List κ) (reply : Reply)
    (replies : List Reply) :
    succeeding (call :: rest) (reply :: replies) =
      if reply.succeeded then call :: succeeding rest replies else succeeding rest replies := by
  unfold succeeding
  rw [List.zip_cons_cons, List.filter_cons]
  split <;> rfl

/-- A run without its failed calls gives the other replies and leads to the same context. -/
theorem run_succeeding (ctx : Context s) (calls : List Call) :
    ctx.run (succeeding calls (ctx.run calls).1) =
      ((ctx.run calls).1.filter Reply.succeeded, (ctx.run calls).2) := by
  -- The induction is on the calls; a failed one leaves the context for the rest.
  induction calls generalizing ctx with
  | nil => rfl
  | cons call rest ih =>
    have hrest := ih (ctx.apply call).2
    simp only [run, succeeding_cons, List.filter_cons]
    -- The reply is kept with its call, or dropped with it.
    cases hcall : (ctx.apply call).1.succeeded with
    | true => simp only [if_true, run, hrest]
    | false =>
      rw [(apply_of_failed hcall).1] at hrest ⊢
      exact hrest

/-- Leaving out calls goes before or after a change of what the calls are. -/
theorem succeeding_map {κ κ' : Type} (f : κ → κ') (calls : List κ) (replies : List Reply) :
    succeeding (calls.map f) replies = (succeeding calls replies).map f := by
  unfold succeeding
  rw [List.zip_map_left, List.filter_map, List.map_map, List.map_map]
  rfl

end Context

open Context (Reply succeeding)

/-! ## The incremental MAC -/

namespace Mac.IncrementalContext

/-- The incremental MAC gives back what its context does. -/
theorem apply_of_failed {ctx : IncrementalContext s} {call : Call}
    (h : (ctx.apply call).1.succeeded = false) :
    (ctx.apply call).2 = ctx ∧ (ctx.apply call).1.out = call.inner.buffer := by
  rw [apply_eq] at h ⊢
  obtain ⟨hctx, hout⟩ := Context.apply_of_failed h
  rw [hctx]
  exact ⟨rfl, hout⟩

/-- The same for runs of incremental MACs, which are runs of their contexts. -/
theorem run_succeeding (ctx : IncrementalContext s) (calls : List Call) :
    ctx.run (succeeding calls (ctx.run calls).1) =
      ((ctx.run calls).1.filter Reply.succeeded, (ctx.run calls).2) := by
  rw [run_eq, run_eq, ← Context.succeeding_map, Context.run_succeeding]

end Mac.IncrementalContext

/-! ## The cipher -/

namespace Threefish

/-- A buffer of one block is not refused. -/
theorem onBytes_of_blockLen (f : Block s → Block s) {buffer : Bytes}
    (h : buffer.length = 8 * s.words) : (onBytes f buffer).1 = .ok () := by
  -- A buffer of this length can be read as words.
  obtain ⟨block, hblock⟩ := Option.isSome_iff_exists.mp
    ((LittleEndian.ofBytes?_isSome_iff s.words buffer).mpr h)
  unfold onBytes
  rw [hblock]

/-- Other buffers are refused and left alone. -/
theorem onBytes_of_not_blockLen (f : Block s → Block s) {buffer : Bytes}
    (h : buffer.length ≠ 8 * s.words) : onBytes f buffer = (.error .blockLen, buffer) := by
  have hnone : LittleEndian.ofBytes? s.words buffer = none :=
    Option.not_isSome_iff_eq_none.mp (mt (LittleEndian.ofBytes?_isSome_iff s.words buffer).mp h)
  unfold onBytes
  rw [hnone]

/-- A buffer is refused exactly if it is not one block long. -/
theorem onBytes_fst (f : Block s → Block s) (buffer : Bytes) :
    (onBytes f buffer).1 = if buffer.length = 8 * s.words then .ok () else .error .blockLen := by
  split
  · exact onBytes_of_blockLen f ‹_›
  · rw [onBytes_of_not_blockLen f ‹_›]

end Threefish

/-! ## All calls -/

/-- **Failed calls leave no trace.** A call that fails on a context or an incremental MAC leaves the
    whole of it as it was, and the buffer it was given; a cipher refuses exactly the buffers that
    are not one block long, and leaves them alone. So a run in which the failed calls are left out
    gives all other replies, outputs included, and leads to the same context. -/
theorem failed_calls_leave_no_trace (s : StateSize) :
    (∀ (ctx : Context s) (call : Context.Call), (ctx.apply call).1.succeeded = false →
      (ctx.apply call).2 = ctx ∧ (ctx.apply call).1.out = call.buffer) ∧
    (∀ (ctx : Mac.IncrementalContext s) (call : Mac.Call), (ctx.apply call).1.succeeded = false →
      (ctx.apply call).2 = ctx ∧ (ctx.apply call).1.out = call.inner.buffer) ∧
    (∀ (c : Threefish s) (buffer : Bytes),
      let outcome : Except ParameterError Unit :=
        if buffer.length = 8 * s.words then .ok () else .error .blockLen
      (c.encryptBytes buffer).1 = outcome ∧ (c.decryptBytes buffer).1 = outcome ∧
      (buffer.length ≠ 8 * s.words →
        (c.encryptBytes buffer).2 = buffer ∧ (c.decryptBytes buffer).2 = buffer)) ∧
    (∀ (ctx : Context s) (calls : List Context.Call),
      ctx.run (succeeding calls (ctx.run calls).1) =
        ((ctx.run calls).1.filter Reply.succeeded, (ctx.run calls).2)) ∧
    ∀ (ctx : Mac.IncrementalContext s) (calls : List Mac.Call),
      ctx.run (succeeding calls (ctx.run calls).1) =
        ((ctx.run calls).1.filter Reply.succeeded, (ctx.run calls).2) := by
  refine ⟨fun _ _ => Context.apply_of_failed, fun _ _ => Mac.IncrementalContext.apply_of_failed,
    fun c buffer => ?_, Context.run_succeeding, Mac.IncrementalContext.run_succeeding⟩
  -- Both directions of the cipher go over a buffer in the same way.
  refine ⟨Threefish.onBytes_fst c.encrypt buffer, Threefish.onBytes_fst c.decrypt buffer,
    fun hlen => ⟨?_, ?_⟩⟩
  · exact congrArg Prod.snd (Threefish.onBytes_of_not_blockLen c.encrypt hlen)
  · exact congrArg Prod.snd (Threefish.onBytes_of_not_blockLen c.decrypt hlen)

/-- One bit too many inside a message, an output that does not fit, a restart that nothing was saved
    for, and a buffer of three bytes. -/
theorem failed_calls_leave_no_trace_inside_message :
    let ctx := ((Context.new .skein256).apply (.init 256)).2
    let mac := Mac.IncrementalContext.new .skein256
    let cipher : Threefish .skein256 := Threefish.ofWords (Block.zero _) 0 0
    ((ctx.apply (.updateBits [0x61] 9)).1.succeeded = false ∧
      (ctx.apply (.finish [1, 2, 3])).1.succeeded = false ∧
      (mac.apply (.init .reuse)).1.succeeded = false) ∧
    (ctx.apply (.updateBits [0x61] 9)).2 = ctx ∧
    (ctx.apply (.finish [1, 2, 3])).2 = ctx ∧ (ctx.apply (.finish [1, 2, 3])).1.out = [1, 2, 3] ∧
    (mac.apply (.init .reuse)).2 = mac ∧
    (cipher.encryptBytes [1, 2, 3]).2 = [1, 2, 3] := by
  intro ctx mac cipher
  obtain ⟨hctx, hmac, hcipher, _, _⟩ := failed_calls_leave_no_trace .skein256
  obtain ⟨ctx₁, hinit, _, habsorbing⟩ :=
    (Context.new .skein256).initKeyed_of_pos [] (show 256 ≠ 0 by decide)
  have hinside : ctx = ctx₁ := congrArg Prod.snd (Context.apply_init hinit)
  -- Nine bits need two bytes, and an output of 256 bits does not fit into three.
  have hbits : (ctx.apply (.updateBits [0x61] 9)).1.succeeded = false := by
    rw [hinside, Context.apply_updateBits (habsorbing.updateBits_of_short rfl (by decide))]
    rfl
  have hout : (ctx.apply (.finish [1, 2, 3])).1.succeeded = false := by
    rw [hinside, Context.apply_finish (habsorbing.finish_of_short (by decide))]
    rfl
  have hreuse : (mac.apply (.init .reuse)).1.succeeded = false := rfl
  exact ⟨⟨hbits, hout, hreuse⟩, (hctx _ _ hbits).1, (hctx _ _ hout).1, (hctx _ _ hout).2,
    (hmac _ _ hreuse).1, ((hcipher cipher _).2.2 (by decide)).1⟩

end SkeinHash
