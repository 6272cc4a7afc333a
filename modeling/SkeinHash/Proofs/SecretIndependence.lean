import SkeinHash.Context.Secrecy
import SkeinHash.Proofs.LifecycleSimulation

/-!
# Secrets do not show

Which blocks are compressed, which checks fail and what a context shows of itself hangs on the
lengths of keys and messages, never on their contents. Two runs whose calls look the same are in
step: the tweak, the number of pending bytes and the phase are the same at every moment, while
chaining values and pending bytes may differ.

- `Ubi.InStep`: two states of the iteration that are equally far
- `Context.lookSame_apply`: one call, from contexts that look the same
- `Context.visible_run`: all calls of a run
- `calls_look_same`: contexts and incremental MACs
-/

namespace SkeinHash

variable {s : StateSize}

/-! ## Passes -/

namespace Ubi

variable {σ : Type} {c : Compression s σ}

/-- `u` and `u'` are equally far: they have the same tweak and as many pending bytes. -/
structure InStep (u u' : Ubi s σ) : Prop where
  tweak_eq : u.tweak = u'.tweak
  numPending_eq : u.numPending = u'.numPending

/-- A pass starts in the same way from every state. -/
theorem inStep_start (u u' : Ubi s σ) (t : BlockType) : InStep (u.start t) (u'.start t) :=
  ⟨rfl, rfl⟩

namespace InStep

variable {u u' : Ubi s σ}

/-- Holding inputs of the same length keeps two states in step. -/
theorem hold (h : InStep u u') {data data' : Bytes} (hlen : data.length = data'.length) :
    InStep (u.hold data) (u'.hold data') where
  tweak_eq := h.tweak_eq
  numPending_eq := by
    change u.numPending + data.length = u'.numPending + data'.length
    rw [h.numPending_eq, hlen]

/-- A compression keeps two states in step, whatever comes out of it. -/
theorem compressPending (h : InStep u u') (len : Nat) :
    InStep (u.compressPending c len) (u'.compressPending c len) where
  tweak_eq := by
    change (u.tweak.addPosition len).clearFirst = (u'.tweak.addPosition len).clearFirst
    rw [h.tweak_eq]
  numPending_eq := rfl

/-- How many blocks an input fills depends on its length. -/
theorem absorb (h : InStep u u') {data data' : Bytes} (hlen : data.length = data'.length) :
    InStep (u.absorb c data) (u'.absorb c data') := by
  -- The induction is along the first input; the second one is cut in the same places.
  induction u, data using Ubi.absorb.induct c generalizing u' data' with
  | case1 u data room =>
    rename_i hfits
    have hroom : room = s.blockLen - u'.numPending := by rw [← h.numPending_eq]
    have hfits' : data'.drop room = [] := by
      rw [List.drop_eq_nil_iff, ← hlen]
      exact List.drop_eq_nil_iff.mp hfits
    have hfirst : u.absorb c data = u.hold data := by rw [Ubi.absorb, if_pos hfits]
    have hsecond : u'.absorb c data' = u'.hold data' := by rw [Ubi.absorb, ← hroom, if_pos hfits']
    rw [hfirst, hsecond]
    exact h.hold hlen
  | case2 u data room =>
    rename_i hrest ih
    have hroom : room = s.blockLen - u'.numPending := by rw [← h.numPending_eq]
    have hrest' : data'.drop room ≠ [] := by
      rw [Ne, List.drop_eq_nil_iff, ← hlen]
      exact mt List.drop_eq_nil_iff.mpr hrest
    have hfirst : u.absorb c data =
        ((u.hold (data.take room)).compressPending c s.blockLen).absorb c (data.drop room) := by
      rw [Ubi.absorb, if_neg hrest]
    have hsecond : u'.absorb c data' =
        ((u'.hold (data'.take room)).compressPending c s.blockLen).absorb c (data'.drop room) := by
      rw [Ubi.absorb, ← hroom, if_neg hrest']
    have htake : (data.take room).length = (data'.take room).length := by
      rw [List.length_take, List.length_take, hlen]
    -- What is left after the first block has the same length again.
    have hdrop : (data.drop room).length = (data'.drop room).length := by
      rw [List.length_drop, List.length_drop, hlen]
    rw [hfirst, hsecond]
    exact ih ((h.hold htake).compressPending s.blockLen) hdrop

/-- The same padding of a byte keeps two states in step. -/
theorem padPartialByte (h : InStep u u') (v : Nat) :
    InStep (u.padPartialByte v) (u'.padPartialByte v) := by
  unfold Ubi.padPartialByte
  rw [h.numPending_eq]
  split
  · exact h
  · exact ⟨congrArg Tweak.setBitPad h.tweak_eq, rfl⟩

/-- Inputs that end inside a byte keep two states in step if they have the same length. -/
theorem absorbBits (h : InStep u u') {data data' : Bytes} (hlen : data.length = data'.length)
    (bitCount : Nat) : InStep (u.absorbBits c data bitCount) (u'.absorbBits c data' bitCount) := by
  unfold Ubi.absorbBits
  split
  · exact h.absorb hlen
  · exact (h.absorb hlen).padPartialByte _

/-- The end of a pass keeps two states in step. -/
theorem finishPass (h : InStep u u') : InStep (u.finishPass c) (u'.finishPass c) := by
  -- Zeroing the rest of the buffer and setting the flag is the same in both states.
  have hfinal : InStep
      { u with pending := u.pending.clearFrom u.numPending, tweak := u.tweak.setFinal }
      { u' with pending := u'.pending.clearFrom u'.numPending, tweak := u'.tweak.setFinal } :=
    ⟨congrArg Tweak.setFinal h.tweak_eq, h.numPending_eq⟩
  -- The number of bytes counted last is that of the pending ones, which is the same.
  unfold Ubi.finishPass
  rw [h.numPending_eq] at hfinal ⊢
  exact hfinal.compressPending _

end InStep

/-- Whole passes over inputs of the same length end in step. -/
theorem inStep_pass (u u' : Ubi s σ) (t : BlockType) {input input' : Bytes}
    (hlen : input.length = input'.length) : InStep (u.pass c t input) (u'.pass c t input') :=
  ((inStep_start u u' t).absorb hlen).finishPass

/-- The output passes end in step. -/
theorem InStep.outputFrom {u u' : Ubi s σ} (h : InStep u u') (message message' : σ)
    (counter n : Nat) :
    InStep (outputFrom c message u counter n).2 (outputFrom c message' u' counter n).2 := by
  have hB := s.blockLen_pos
  induction n using Nat.strongRecOn generalizing u u' counter with
  | ind n ih =>
    rw [Ubi.outputFrom, Ubi.outputFrom]
    -- Both go on as long as there are bytes left, so they stop after the same pass.
    by_cases hn : n = 0
    · rw [if_pos hn, if_pos hn]
      exact h
    · rw [if_neg hn, if_neg hn]
      exact ih _ (by omega) (inStep_pass _ _ .output rfl) _

/-- The output keeps two states in step; the number of passes hangs on its length alone. -/
theorem InStep.finish {u u' : Ubi s σ} (h : InStep u u') (bits : Nat) :
    InStep (u.finish c bits).2 (u'.finish c bits).2 := by
  have houtput := (h.finishPass (c := c)).outputFrom (c := c) (u.finishPass c).chaining
    (u'.finishPass c).chaining 0 (byteCount bits)
  exact ⟨houtput.tweak_eq, houtput.numPending_eq⟩

end Ubi

/-! ## Calls with the same lengths -/

/-- What is left of a redacted byte string is its length. -/
theorem Bytes.length_eq_of_redacted_eq {data data' : Bytes}
    (h : Bytes.redacted data = Bytes.redacted data') : data.length = data'.length := by
  simpa [Bytes.redacted] using congrArg List.length h

namespace Context

/-- Two calls of one operation, with byte strings of the same lengths. -/
inductive Call.Alike : Call → Call → Prop where
  | init (bits : Nat) : Alike (.init bits) (.init bits)
  | initWithKey {key key' : Bytes} (hlen : key.length = key'.length) (bits : Nat) :
      Alike (.initWithKey key bits) (.initWithKey key' bits)
  | initFromSaved : Alike .initFromSaved .initFromSaved
  | update {data data' : Bytes} (hlen : data.length = data'.length) :
      Alike (.update data) (.update data')
  | updateBits {data data' : Bytes} (hlen : data.length = data'.length) (bitCount : Nat) :
      Alike (.updateBits data bitCount) (.updateBits data' bitCount)
  | finish {out out' : Bytes} (hlen : out.length = out'.length) : Alike (.finish out) (.finish out')

/-- Two calls of which the same can be seen differ in the contents of their byte strings at most.
    -/
theorem Call.alike_of_redacted_eq {call call' : Call} (h : call.redacted = call'.redacted) :
    Alike call call' := by
  -- Calls of different operations differ in what can be seen of them.
  cases call <;> cases call' <;> simp only [redacted, reduceCtorEq, Call.init.injEq,
    Call.initWithKey.injEq, Call.update.injEq, Call.updateBits.injEq, Call.finish.injEq] at h
  case init.init => exact h ▸ .init _
  case initWithKey.initWithKey =>
    obtain ⟨hkey, rfl⟩ := h
    exact .initWithKey (Bytes.length_eq_of_redacted_eq hkey) _
  case initFromSaved.initFromSaved => exact .initFromSaved
  case update.update => exact .update (Bytes.length_eq_of_redacted_eq h)
  case updateBits.updateBits =>
    obtain ⟨hdata, rfl⟩ := h
    exact .updateBits (Bytes.length_eq_of_redacted_eq hdata) _
  case finish.finish => exact .finish (Bytes.length_eq_of_redacted_eq h)

/-! ## Contexts that look the same -/

section Visible

variable {ctx ctx' : Context s}

/-- What a context shows is put together from these. -/
theorem visible_eq_of_inStep (hstate : Ubi.InStep ctx.state ctx'.state)
    (hphase : ctx.phase = ctx'.phase) (hsaved : ctx.savedBits = ctx'.savedBits) :
    ctx.visible = ctx'.visible := by
  unfold visible
  rw [hstate.tweak_eq, hstate.numPending_eq, hphase, hsaved]

variable (h : ctx.visible = ctx'.visible)

include h

/-- The states behind contexts that look the same are in step. -/
theorem inStep_of_visible : Ubi.InStep ctx.state ctx'.state :=
  ⟨congrArg Visible.tweak h, congrArg Visible.numPending h⟩

/-- Contexts that look the same are in the same phase, and all lengths that they tell are the same.
    -/
theorem phase_eq_of_visible : ctx.phase = ctx'.phase := congrArg Visible.phase h

theorem savedBits_eq_of_visible : ctx.savedBits = ctx'.savedBits := congrArg Visible.savedBits h

theorem outputBits_eq_of_visible : ctx.outputBits = ctx'.outputBits := by
  unfold outputBits
  rw [phase_eq_of_visible h]

theorem outputLen_eq_of_visible : ctx.outputLen = ctx'.outputLen :=
  congrArg byteCount (outputBits_eq_of_visible h)

/-- A description has nothing in it but what shows. -/
theorem describe_eq_of_visible : ctx.describe = ctx'.describe := by
  unfold describe
  rw [outputBits_eq_of_visible h, phase_eq_of_visible h]

/-- Whether there is a message to go on with shows. -/
theorem checkAbsorbing_eq_of_visible : ctx.checkAbsorbing = ctx'.checkAbsorbing := by
  unfold checkAbsorbing
  rw [phase_eq_of_visible h]

/-- Whether the message has ended inside a byte is read off the tweak. -/
theorem checkAccepting_eq_of_visible : ctx.checkAccepting = ctx'.checkAccepting := by
  unfold checkAccepting
  rw [checkAbsorbing_eq_of_visible h, (inStep_of_visible h).tweak_eq]

/-! ### Operations -/

/-- Two starts with the same output length look the same, whatever the keys. -/
theorem initKeyed_of_visible (key key' : Bytes) (bits : Nat) :
    (ctx.initKeyed key bits).1 = (ctx'.initKeyed key' bits).1 ∧
      (ctx.initKeyed key bits).2.visible = (ctx'.initKeyed key' bits).2.visible := by
  have hsaved := savedBits_eq_of_visible h
  unfold initKeyed
  split
  · exact ⟨rfl, h⟩
  · exact ⟨rfl, visible_eq_of_inStep (Ubi.inStep_start _ _ .message) rfl hsaved⟩

/-- Saving the start of a keyed message shows no more than its output length. -/
theorem initWithKey_of_visible (key key' : Bytes) (bits : Nat) :
    (ctx.initWithKey key bits).1 = (ctx'.initWithKey key' bits).1 ∧
      (ctx.initWithKey key bits).2.visible = (ctx'.initWithKey key' bits).2.visible := by
  have hinit := initKeyed_of_visible h key key' bits
  unfold initWithKey
  -- Only the outcome of the first start and what it shows matter from here.
  generalize ctx.initKeyed key bits = first at hinit ⊢
  generalize ctx'.initKeyed key' bits = second at hinit ⊢
  obtain ⟨outcome, ctx₁⟩ := first
  obtain ⟨_, ctx₂⟩ := second
  obtain ⟨rfl, hvisible⟩ := hinit
  have hstate := inStep_of_visible hvisible
  have hphase := phase_eq_of_visible hvisible
  cases outcome with
  | error e => exact ⟨rfl, hvisible⟩
  | ok => exact ⟨rfl, visible_eq_of_inStep ⟨hstate.tweak_eq, hstate.numPending_eq⟩ hphase rfl⟩

/-- Two returns to what was saved look the same. -/
theorem initFromSaved_of_visible :
    ctx.initFromSaved.1 = ctx'.initFromSaved.1 ∧
      ctx.initFromSaved.2.visible = ctx'.initFromSaved.2.visible := by
  have hsaved := savedBits_eq_of_visible h
  unfold initFromSaved
  rw [hsaved]
  split
  · exact ⟨rfl, h⟩
  · exact ⟨rfl, visible_eq_of_inStep (Ubi.inStep_start _ _ .message) rfl rfl⟩

/-- Data of the same length looks the same. -/
theorem update_of_visible {data data' : Bytes} (hlen : data.length = data'.length) :
    (ctx.update data).1 = (ctx'.update data').1 ∧
      (ctx.update data).2.visible = (ctx'.update data').2.visible := by
  have hphase := phase_eq_of_visible h
  have hsaved := savedBits_eq_of_visible h
  unfold update
  rw [checkAccepting_eq_of_visible h]
  split
  · exact ⟨rfl, h⟩
  · exact ⟨rfl, visible_eq_of_inStep ((inStep_of_visible h).absorb hlen) hphase hsaved⟩

/-- Data of the same length in bits and bytes looks the same. -/
theorem updateBits_of_visible {data data' : Bytes} (hlen : data.length = data'.length)
    (bitCount : Nat) :
    (ctx.updateBits data bitCount).1 = (ctx'.updateBits data' bitCount).1 ∧
      (ctx.updateBits data bitCount).2.visible = (ctx'.updateBits data' bitCount).2.visible := by
  have hphase := phase_eq_of_visible h
  have hsaved := savedBits_eq_of_visible h
  have htake : (data.take (byteCount bitCount)).length =
      (data'.take (byteCount bitCount)).length := by
    rw [List.length_take, List.length_take, hlen]
  unfold updateBits leadingBytes
  rw [checkAccepting_eq_of_visible h, hlen]
  split
  · exact ⟨rfl, h⟩
  · -- Too few bytes are too few in both runs.
    by_cases hroom : byteCount bitCount ≤ data'.length
    · simp only [if_pos hroom]
      exact ⟨trivial,
        visible_eq_of_inStep ((inStep_of_visible h).absorbBits htake bitCount) hphase hsaved⟩
    · simp only [if_neg hroom]
      exact ⟨trivial, h⟩

/-- Outputs into buffers of the same length look the same. -/
theorem finish_of_visible {out out' : Bytes} (hlen : out.length = out'.length) :
    (ctx.finish out).1 = (ctx'.finish out').1 ∧
      (ctx.finish out).2.2.visible = (ctx'.finish out').2.2.visible := by
  have hsaved := savedBits_eq_of_visible h
  unfold finish
  rw [checkAbsorbing_eq_of_visible h, hlen]
  -- Both runs fail in the same check, or neither does.
  split
  · exact ⟨rfl, h⟩
  · split
    · exact ⟨rfl, h⟩
    · exact ⟨rfl, visible_eq_of_inStep ((inStep_of_visible h).finish _) rfl hsaved⟩

end Visible

/-! ## Calls -/

/-- Beside the outcome, all that can be seen of a call is what the context shows after it. -/
theorem lookSame_of_visible {first second : Reply × Context s}
    (houtcome : first.1.outcome = second.1.outcome) (h : first.2.visible = second.2.visible) :
    LookSame first second where
  outcome_eq := houtcome
  visible_eq := h
  outputBits_eq := outputBits_eq_of_visible h
  outputLen_eq := outputLen_eq_of_visible h
  describe_eq := describe_eq_of_visible h

/-- From contexts that look the same, calls that look the same give replies and contexts that look
    the same. -/
theorem lookSame_apply {ctx ctx' : Context s} (h : ctx.visible = ctx'.visible) {call call' : Call}
    (hcall : Call.Alike call call') : LookSame (ctx.apply call) (ctx'.apply call') := by
  -- For each operation the lemma on it gives the outcome and what shows afterwards.
  cases hcall with
  | init bits =>
    obtain ⟨houtcome, hvisible⟩ := initKeyed_of_visible h [] [] bits
    exact lookSame_of_visible (congrArg (·.mapError Failure.parameter) houtcome) hvisible
  | initWithKey hlen bits =>
    obtain ⟨houtcome, hvisible⟩ := initWithKey_of_visible h _ _ bits
    exact lookSame_of_visible (congrArg (·.mapError Failure.parameter) houtcome) hvisible
  | initFromSaved =>
    obtain ⟨houtcome, hvisible⟩ := initFromSaved_of_visible h
    exact lookSame_of_visible (congrArg (·.mapError Failure.sequence) houtcome) hvisible
  | update hlen =>
    obtain ⟨houtcome, hvisible⟩ := update_of_visible h hlen
    exact lookSame_of_visible (congrArg (·.mapError Failure.sequence) houtcome) hvisible
  | updateBits hlen bitCount =>
    obtain ⟨houtcome, hvisible⟩ := updateBits_of_visible h hlen bitCount
    exact lookSame_of_visible houtcome hvisible
  | finish hlen =>
    obtain ⟨houtcome, hvisible⟩ := finish_of_visible h hlen
    exact lookSame_of_visible houtcome hvisible

/-! ## Buffers -/

/-- A call that leaves the buffer alone writes no bytes of it. -/
theorem overwrites_nothing (len : Nat) : Overwrites id len 0 :=
  ⟨Nat.zero_le _, [], rfl, fun _ _ => rfl⟩

/-- The output length of a message that is absorbed. -/
theorem outputLen_of_checkAbsorbing {ctx : Context s} {bits : Nat}
    (h : ctx.checkAbsorbing = .ok bits) : ctx.outputLen = byteCount bits := by
  unfold checkAbsorbing at h
  unfold outputLen outputBits
  cases hphase : ctx.phase <;> simp only [hphase, reduceCtorEq, Except.ok.injEq] at h
  case absorbing => rw [h]

/-- An output that does not fit is refused. -/
theorem finish_of_lt {ctx : Context s} {bits : Nat} (hcheck : ctx.checkAbsorbing = .ok bits)
    {out : Bytes} (hroom : out.length < byteCount bits) :
    ctx.finish out = (.error (.parameter .outputTooSmall), out, ctx) := by
  simp only [finish, hcheck, if_pos hroom]

/-- An output that fits stands at the beginning of the buffer. -/
theorem finish_of_le {ctx : Context s} {bits : Nat} (hcheck : ctx.checkAbsorbing = .ok bits)
    {out : Bytes} (hroom : byteCount bits ≤ out.length) :
    ctx.finish out = (.ok (),
      (ctx.state.finish (.threefish s) bits).1 ++ out.drop (byteCount bits),
      { ctx with
        state := (ctx.state.finish (.threefish s) bits).2
        phase := .finalized bits }) := by
  simp only [finish, hcheck, if_neg (Nat.not_lt_of_le hroom)]

/-- An output takes up the first bytes of its buffer; without an output the buffer stays. -/
theorem overwrites_finish (ctx : Context s) (out : Bytes) :
    Overwrites (fun buffer => (ctx.apply (.finish buffer)).1.out) out.length
      (if (ctx.apply (.finish out)).1.succeeded then ctx.outputLen else 0) := by
  -- Whether there is an output to give does not depend on the buffer, only on its length.
  cases hcheck : ctx.checkAbsorbing with
  | error e =>
    have hfinish := fun buffer => apply_finish (finish_of_outside hcheck buffer)
    simp only [hfinish]
    exact overwrites_nothing _
  | ok bits =>
    rw [outputLen_of_checkAbsorbing hcheck]
    rcases Nat.lt_or_ge out.length (byteCount bits) with hroom | hroom
    · -- there is no room for the output in any buffer of this length
      have hn : (if (ctx.apply (.finish out)).1.succeeded then byteCount bits else 0) = 0 := by
        rw [apply_finish (finish_of_lt hcheck hroom)]
        rfl
      rw [hn]
      refine ⟨Nat.zero_le _, [], rfl, fun buffer hlen => ?_⟩
      rw [← hlen] at hroom
      change (ctx.apply (.finish buffer)).1.out = buffer
      rw [apply_finish (finish_of_lt hcheck hroom)]
    · have hn : (if (ctx.apply (.finish out)).1.succeeded then byteCount bits else 0) =
          byteCount bits := by
        rw [apply_finish (finish_of_le hcheck hroom)]
        rfl
      rw [hn]
      refine ⟨hroom, (ctx.state.finish (.threefish s) bits).1, Ubi.length_finish _ _,
        fun buffer hlen => ?_⟩
      rw [← hlen] at hroom
      change (ctx.apply (.finish buffer)).1.out = _ ++ buffer.drop (byteCount bits)
      rw [apply_finish (finish_of_le hcheck hroom)]

/-- Contexts that look the same write the same part of their buffers. -/
theorem overwrites_of_visible {ctx ctx' : Context s} (h : ctx.visible = ctx'.visible)
    {out out' : Bytes} (hlen : out.length = out'.length) :
    let n := if (ctx.apply (.finish out)).1.succeeded then ctx.outputLen else 0
    Overwrites (fun buffer => (ctx.apply (.finish buffer)).1.out) out.length n ∧
      Overwrites (fun buffer => (ctx'.apply (.finish buffer)).1.out) out'.length n := by
  intro n
  have hoverwrites' := ctx'.overwrites_finish out'
  have hsucceeded :
      (ctx.apply (.finish out)).1.succeeded = (ctx'.apply (.finish out')).1.succeeded :=
    congrArg Except.isOk (lookSame_apply h (.finish hlen)).outcome_eq
  rw [← hsucceeded, ← outputLen_eq_of_visible h] at hoverwrites'
  exact ⟨ctx.overwrites_finish out, hoverwrites'⟩

/-! ## Runs -/

/-- Calls that look the same keep the contexts looking the same. -/
theorem visible_run {ctx ctx' : Context s} (h : ctx.visible = ctx'.visible)
    {calls calls' : List Call} (hcalls : calls.map Call.redacted = calls'.map Call.redacted) :
    (ctx.run calls).2.visible = (ctx'.run calls').2.visible := by
  -- The induction is on the calls of the first run, for all contexts that look the same.
  induction calls generalizing ctx ctx' calls' with
  | nil =>
    obtain rfl : calls' = [] := List.map_eq_nil_iff.mp hcalls.symm
    exact h
  | cons call rest ih =>
    obtain ⟨call', rest', rfl, hcall, hrest⟩ := List.map_eq_cons_iff.mp hcalls.symm
    exact ih (lookSame_apply h (Call.alike_of_redacted_eq hcall.symm)).visible_eq hrest.symm

/-- At every moment of two runs that look the same, the next calls do so, too. -/
theorem step_looks_same {calls calls' : List Call}
    (hcalls : calls.map Call.redacted = calls'.map Call.redacted) {ctx ctx' : Context s}
    (h : ctx.visible = ctx'.visible) {i : Nat} (hi : i < calls.length) (hi' : i < calls'.length) :
    let before := (ctx.run (calls.take i)).2
    let before' := (ctx'.run (calls'.take i)).2
    LookSame (before.apply calls[i]) (before'.apply calls'[i]) ∧
    ∀ out out', calls[i] = .finish out → calls'[i] = .finish out' →
      let n := if (before.apply calls[i]).1.succeeded then before.outputLen else 0
      Overwrites (fun buffer => (before.apply (.finish buffer)).1.out) out.length n ∧
      Overwrites (fun buffer => (before'.apply (.finish buffer)).1.out) out'.length n := by
  intro before before'
  have hbefore : (calls.take i).map Call.redacted = (calls'.take i).map Call.redacted := by
    rw [List.map_take, List.map_take, hcalls]
  -- The runs so far look the same, so the next calls start from the same appearance.
  have hvisible : before.visible = before'.visible := visible_run h hbefore
  have hcall : calls[i].redacted = calls'[i].redacted := by
    have hget := congrArg (·[i]?) hcalls
    simpa [hi, hi'] using hget
  have halike := Call.alike_of_redacted_eq hcall
  refine ⟨lookSame_apply hvisible halike, ?_⟩
  intro out out' hout hout'
  rw [hout, hout'] at halike
  cases halike with
  | finish hlen =>
    rw [hout]
    exact overwrites_of_visible hvisible hlen

end Context

/-! ## The incremental MAC -/

open Context (LookSame Overwrites)

theorem length_eq_of_map_eq {α β : Type} {f : α → β} {xs ys : List α} (h : xs.map f = ys.map f) :
    xs.length = ys.length := by
  simpa using congrArg List.length h

namespace Mac

/-- To redact a call on an incremental MAC is to redact the call that it comes to. -/
theorem Call.inner_redacted (call : Call) : call.redacted.inner = call.inner.redacted := by
  rcases call with (start | start) | _ | _ | _ <;> rfl

/-- Calls on incremental MACs that look the same come to calls that look the same. -/
theorem map_redacted_inner {calls calls' : List Call}
    (h : calls.map Call.redacted = calls'.map Call.redacted) :
    (calls.map Call.inner).map Context.Call.redacted =
      (calls'.map Call.inner).map Context.Call.redacted := by
  have hinner := congrArg (List.map Call.inner) h
  simpa only [List.map_map, Function.comp_def, Call.inner_redacted] using hinner

/-- What holds of the hashing contexts holds of incremental MACs, which show them. -/
theorem IncrementalContext.step_looks_same {calls calls' : List Call}
    (hcalls : calls.map Call.redacted = calls'.map Call.redacted) {i : Nat} (hi : i < calls.length)
    (hi' : i < calls'.length) :
    let before := ((IncrementalContext.new s).run (calls.take i)).2
    let before' := ((IncrementalContext.new s).run (calls'.take i)).2
    LookSame ((before.apply calls[i]).1, (before.apply calls[i]).2.inner)
      ((before'.apply calls'[i]).1, (before'.apply calls'[i]).2.inner) ∧
    (before.apply calls[i]).2.describe = (before'.apply calls'[i]).2.describe ∧
    ∀ out out', calls[i] = .finish out → calls'[i] = .finish out' →
      let n := if (before.apply calls[i]).1.succeeded then before.outputLen else 0
      Overwrites (fun buffer => (before.apply (.finish buffer)).1.out) out.length n ∧
      Overwrites (fun buffer => (before'.apply (.finish buffer)).1.out) out'.length n := by
  have hnew : (Context.new s).visible = (Context.new s).visible := rfl
  have hinner := Context.step_looks_same (map_redacted_inner hcalls) hnew
    (by rwa [List.length_map]) (by rwa [List.length_map])
  simp only [List.getElem_map, ← List.map_take] at hinner
  obtain ⟨hlook, hwrite⟩ := hinner
  intro before before'
  -- An incremental MAC is the context inside of it, before as after the call.
  have hbefore : before = ⟨((Context.new s).run ((calls.take i).map Call.inner)).2⟩ :=
    congrArg Prod.snd (run_eq _ _)
  have hbefore' : before' = ⟨((Context.new s).run ((calls'.take i).map Call.inner)).2⟩ :=
    congrArg Prod.snd (run_eq _ _)
  rw [hbefore, hbefore', apply_eq, apply_eq]
  refine ⟨hlook, ?_, fun out out' hout hout' => ?_⟩
  · exact congrArg (fun d => Description.record "MacContext" [("inner", d)] false)
      hlook.describe_eq
  · exact hwrite out out' (congrArg Call.inner hout) (congrArg Call.inner hout')

end Mac

/-! ## All calls -/

/-- **Secrets do not show.** Take two runs of the same calls, with keys and messages of the same
    lengths, buffers of the same lengths, and the same numbers. At every moment the two calls that
    come next have the same outcome, and the contexts after them have the same output length,
    description, tweak and number of pending bytes. A call for the output writes the same part of
    its buffer in both runs, the whole output or nothing, and the rest of the buffer stays. -/
theorem calls_look_same (s : StateSize) :
    (∀ calls calls' : List Context.Call,
      calls.map Context.Call.redacted = calls'.map Context.Call.redacted →
      calls.length = calls'.length ∧
      ∀ (i : Nat) (hi : i < calls.length) (hi' : i < calls'.length),
        let ctx := ((Context.new s).run (calls.take i)).2
        let ctx' := ((Context.new s).run (calls'.take i)).2
        LookSame (ctx.apply calls[i]) (ctx'.apply calls'[i]) ∧
        ∀ out out', calls[i] = .finish out → calls'[i] = .finish out' →
          let n := if (ctx.apply calls[i]).1.succeeded then ctx.outputLen else 0
          Overwrites (fun buffer => (ctx.apply (.finish buffer)).1.out) out.length n ∧
          Overwrites (fun buffer => (ctx'.apply (.finish buffer)).1.out) out'.length n) ∧
    ∀ calls calls' : List Mac.Call, calls.map Mac.Call.redacted = calls'.map Mac.Call.redacted →
      calls.length = calls'.length ∧
      ∀ (i : Nat) (hi : i < calls.length) (hi' : i < calls'.length),
        let ctx := ((Mac.IncrementalContext.new s).run (calls.take i)).2
        let ctx' := ((Mac.IncrementalContext.new s).run (calls'.take i)).2
        LookSame ((ctx.apply calls[i]).1, (ctx.apply calls[i]).2.inner)
          ((ctx'.apply calls'[i]).1, (ctx'.apply calls'[i]).2.inner) ∧
        (ctx.apply calls[i]).2.describe = (ctx'.apply calls'[i]).2.describe ∧
        ∀ out out', calls[i] = .finish out → calls'[i] = .finish out' →
          let n := if (ctx.apply calls[i]).1.succeeded then ctx.outputLen else 0
          Overwrites (fun buffer => (ctx.apply (.finish buffer)).1.out) out.length n ∧
          Overwrites (fun buffer => (ctx'.apply (.finish buffer)).1.out) out'.length n := by
  constructor
  · -- Runs start from the same new context.
    intro calls calls' hcalls
    exact ⟨length_eq_of_map_eq hcalls, fun i hi hi' => Context.step_looks_same hcalls rfl hi hi'⟩
  · intro calls calls' hcalls
    refine ⟨length_eq_of_map_eq hcalls, fun i hi hi' => ?_⟩
    exact Mac.IncrementalContext.step_looks_same hcalls hi hi'

/-- A keyed message of more than a block that ends inside a byte, with an output of twelve bits in a
    buffer of three bytes, and a tag that is asked for twice. -/
theorem calls_look_same_partial_bytes :
    let calls : List Context.Call := [.initWithKey [1, 2, 3] 12, .update (List.replicate 40 1),
      .updateBits [0xff] 3, .finish [9, 9, 9]]
    let calls' : List Context.Call := [.initWithKey [4, 5, 6] 12, .update (List.replicate 40 2),
      .updateBits [0x07] 3, .finish [7, 8, 9]]
    let ctx := ((Context.new .skein256).run (calls.take 3)).2
    let ctx' := ((Context.new .skein256).run (calls'.take 3)).2
    let tags : List Mac.Call := [.init (.keyed [1] 8), .finish [0], .finish [0]]
    let tags' : List Mac.Call := [.init (.keyed [2] 8), .finish [1], .finish [2]]
    let mac := ((Mac.IncrementalContext.new .skein256).run (tags.take 2)).2
    let mac' := ((Mac.IncrementalContext.new .skein256).run (tags'.take 2)).2
    (calls.map Context.Call.redacted = calls'.map Context.Call.redacted ∧
      tags.map Mac.Call.redacted = tags'.map Mac.Call.redacted) ∧
    LookSame (ctx.apply (.finish [9, 9, 9])) (ctx'.apply (.finish [7, 8, 9])) ∧
    Overwrites (fun buffer => (ctx.apply (.finish buffer)).1.out) 3 2 ∧
    Overwrites (fun buffer => (ctx'.apply (.finish buffer)).1.out) 3 2 ∧
    (mac.apply (.finish [0])).1.outcome = (mac'.apply (.finish [2])).1.outcome := by
  intro calls calls' ctx ctx' tags tags' mac mac'
  have hcalls : calls.map Context.Call.redacted = calls'.map Context.Call.redacted := by decide
  have htags : tags.map Mac.Call.redacted = tags'.map Mac.Call.redacted := rfl
  obtain ⟨hlook, hwrite⟩ := ((calls_look_same .skein256).1 calls calls' hcalls).2 3
    (by decide) (by decide)
  have htag := (((calls_look_same .skein256).2 tags tags' htags).2 2 (by decide) (by decide)).1
  -- The machine of the lifecycle says that the output is given, and how long it is.
  obtain ⟨_, _, _, _, _, hlen, hstep⟩ :=
    Context.run_follows_lifecycle .skein256 (calls.take 3)
  have hn : (if (ctx.apply calls[3]).1.succeeded then ctx.outputLen else 0) = 2 := by
    have hsucceeded : (ctx.apply calls[3]).1.succeeded = true := by
      unfold Context.Reply.succeeded
      rw [(hstep calls[3]).1]
      decide
    rw [hsucceeded, hlen]
    decide
  obtain ⟨hfirst, hsecond⟩ := hwrite _ _ rfl rfl
  rw [hn] at hfirst hsecond
  exact ⟨⟨hcalls, htags⟩, hlook, hfirst, hsecond, htag.outcome_eq⟩

end SkeinHash
