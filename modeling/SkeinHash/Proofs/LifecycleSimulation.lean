import SkeinHash.Context.Lifecycle
import SkeinHash.Proofs.ContextOperations

/-!
# The lifecycle decides about every outcome

Whether a call fails, and with which error, hangs on the machine of `Lifecycle` only. What the
machine calls padded is a flag of the tweak, which every block, every pass and every restored state
writes anew; inside a message it says whether the message has ended inside a byte.

- `Follows`: the relation between a context and the machine
- `Follows.step`, `Follows.run`: every call keeps it and has the outcome that the machine says
- `run_follows_lifecycle`: the outcomes of a run, and what can be asked of the context after it
-/

namespace SkeinHash.Context

variable {s : StateSize} {ctx ctx' : Context s} {m : Lifecycle} {call : Call}

/-! ## The relation between context and machine -/

/-- The phase of a context that stands where the machine stands. -/
def Lifecycle.phase (m : Lifecycle) : Phase :=
  match m.stage with
  | .prepared => .prepared
  | .absorbing => .absorbing (m.bits.getD 0)
  | .finalized => .finalized (m.bits.getD 0)

/-- `ctx` stands where the machine stands. -/
structure Follows (ctx : Context s) (m : Lifecycle) : Prop where
  phase_eq : ctx.phase = m.phase
  bits_eq : m.stage = .prepared → m.bits = none
  savedBits_eq : ctx.savedBits = m.saved
  absorbing : m.stage = .absorbing → ∃ g message, Absorbing ctx g (m.bits.getD 0) message ∧
    m.padded = decide (message.length % 8 ≠ 0)

/-- A new context stands where a new machine stands. -/
theorem follows_new (s : StateSize) : Follows (Context.new s) .new where
  phase_eq := rfl
  bits_eq _ := rfl
  savedBits_eq := rfl
  absorbing := nofun

/-- A message brings the context to where the machine is after the call that started it. -/
theorem Absorbing.follows {g : Block s} {bits : Nat} (h : Absorbing ctx g bits []) :
    Follows ctx ⟨.absorbing, some bits, false, ctx.savedBits⟩ where
  phase_eq := h.phase_eq
  bits_eq := nofun
  savedBits_eq := rfl
  absorbing _ := ⟨g, [], h, rfl⟩

namespace Follows

/-- Outside of a message the machine says why there is none. -/
theorem stage_cases (h : Follows ctx m) :
    (∃ e, m.stageFault? = some (.sequence e) ∧ ctx.checkAbsorbing = .error e) ∨
    (m.stageFault? = none ∧ m.stage = .absorbing ∧
      ∃ g message, Absorbing ctx g (m.bits.getD 0) message ∧
        m.padded = decide (message.length % 8 ≠ 0)) := by
  have hphase := h.phase_eq
  unfold Lifecycle.phase at hphase
  unfold Lifecycle.stageFault? checkAbsorbing
  -- One case for each stage, with the phase of the context that belongs to it.
  cases hstage : m.stage <;> simp only [hstage] at hphase <;> rw [hphase]
  case prepared => exact .inl ⟨_, rfl, rfl⟩
  case absorbing => exact .inr ⟨rfl, rfl, h.absorbing hstage⟩
  case finalized => exact .inl ⟨_, rfl, rfl⟩

/-- When input is refused, the machine says why. -/
theorem input_cases (h : Follows ctx m) :
    (∃ e, m.inputFault? = some (.sequence e) ∧ ctx.checkAccepting = .error e) ∨
    (m.inputFault? = none ∧ m.stage = .absorbing ∧ m.padded = false ∧
      ∃ g message, Absorbing ctx g (m.bits.getD 0) message ∧ message.length % 8 = 0) := by
  unfold Lifecycle.inputFault?
  rcases h.stage_cases with
    ⟨e, hfault, houtside⟩ | ⟨hfault, hstage, g, message, habsorbing, hpadded⟩
  · rw [hfault]
    exact .inl ⟨e, rfl, checkAccepting_of_outside houtside⟩
  rw [hfault, hpadded]
  -- Inside a message the machine is padded just if the bits do not fill their last byte.
  by_cases halign : message.length % 8 = 0
  · rw [decide_eq_false (not_not_intro halign)]
    exact .inr ⟨rfl, hstage, rfl, g, message, habsorbing, halign⟩
  · rw [decide_eq_true halign]
    exact .inl ⟨_, rfl, habsorbing.checkAccepting_of_partial halign⟩

/-- The output length is the one that the machine has noted, and zero before any. -/
theorem outputBits_eq (h : Follows ctx m) : ctx.outputBits = m.bits.getD 0 := by
  have hphase := h.phase_eq
  unfold Lifecycle.phase at hphase
  unfold outputBits
  -- Before the first message the machine has no length, and the context counts none.
  cases hstage : m.stage <;> simp only [hstage] at hphase <;> rw [hphase]
  case prepared => rw [h.bits_eq hstage, Option.getD_none]

/-- Inside a message the flag of the tweak is what the machine calls padded. -/
theorem isBitPad_eq (h : Follows ctx m) (hstage : m.stage = .absorbing) :
    ctx.state.tweak.isBitPad = m.padded := by
  obtain ⟨g, message, habsorbing, hpadded⟩ := h.absorbing hstage
  rw [hpadded, habsorbing.hasRead.isBitPad_tweak]

end Follows

/-! ## One call -/

/-- A call from `ctx` has the outcome that the machine says, and brings the context to where it
    brings the machine. If it fails, the context stays as it is. -/
structure FollowsAfter (ctx : Context s) (m : Lifecycle) (call : Call) : Prop where
  outcome_eq : (ctx.apply call).1.outcome = (m.step call).1
  follows : Follows (ctx.apply call).2 (m.step call).2
  unchanged : (ctx.apply call).1.succeeded = false → (ctx.apply call).2 = ctx

/-- A call that fails leaves both sides where they are. -/
theorem Follows.after_error (h : Follows ctx m) {e : Failure} {out : Bytes}
    (hcall : ctx.apply call = (⟨.error e, out⟩, ctx)) (hfault : m.fault? call = some e) :
    FollowsAfter ctx m call := by
  constructor <;> simp only [hcall, Lifecycle.step, hfault]
  case follows => exact h
  case unchanged => exact fun _ => trivial

/-- A call that succeeds moves the machine on, if the context has followed. -/
theorem Follows.after_ok {out : Bytes} (hcall : ctx.apply call = (⟨.ok (), out⟩, ctx'))
    (hfault : m.fault? call = none) (h : Follows ctx' (m.advance call)) :
    FollowsAfter ctx m call := by
  constructor <;> simp only [hcall, Lifecycle.step, hfault]
  case follows => exact h
  case unchanged => exact nofun

namespace Follows

/-- `init` fails on both sides for a length of zero, and else starts a message on both. -/
theorem after_init (h : Follows ctx m) (bits : Nat) : FollowsAfter ctx m (.init bits) := by
  by_cases hbits : bits = 0
  · subst hbits
    exact h.after_error (apply_init (ctx.initKeyed_zero [])) rfl
  · obtain ⟨ctx', hinit, hsame, habsorbing⟩ := ctx.initKeyed_of_pos [] hbits
    -- The message that has started puts the context where the machine goes, with the old saved
    -- length.
    have hfollows := habsorbing.follows
    rw [hsame.savedBits_eq, h.savedBits_eq] at hfollows
    exact after_ok (apply_init hinit) (if_neg hbits) hfollows

/-- `initWithKey` fails on both sides for a length of zero, and else saves the length too. -/
theorem after_initWithKey (h : Follows ctx m) (key : Bytes) (bits : Nat) :
    FollowsAfter ctx m (.initWithKey key bits) := by
  by_cases hbits : bits = 0
  · subst hbits
    exact h.after_error (apply_initWithKey (ctx.initWithKey_zero key)) rfl
  · obtain ⟨ctx', hinit, hsaved, _, habsorbing⟩ := ctx.initWithKey_of_pos key hbits
    -- Here the saved length is the one just asked for.
    have hfollows := habsorbing.follows
    rw [hsaved] at hfollows
    exact after_ok (apply_initWithKey hinit) (if_neg hbits) hfollows

/-- `initFromSaved` fails on both sides without a saved length. -/
theorem after_initFromSaved (h : Follows ctx m) : FollowsAfter ctx m .initFromSaved := by
  have hsaved := h.savedBits_eq
  cases hbits : m.saved with
  | none =>
    rw [hbits] at hsaved
    exact h.after_error (apply_initFromSaved (initFromSaved_of_none hsaved)) (if_pos hbits)
  | some bits =>
    rw [hbits] at hsaved
    obtain ⟨ctx', hinit, hsame, habsorbing⟩ := initFromSaved_of_some hsaved
    have hfollows := habsorbing.follows
    rw [hsame.savedBits_eq, hsaved] at hfollows
    -- The machine takes the saved length for its own.
    refine after_ok (apply_initFromSaved hinit) (if_neg (by rw [hbits]; nofun)) ?_
    simp only [Lifecycle.advance, hbits]
    exact hfollows

/-- Input leaves the stage, the length and the saved state. -/
theorem of_absorbing (h : Follows ctx m) (hstage : m.stage = .absorbing)
    (hsame : SameSaved ctx ctx') {g : Block s} {message : Bits} {padded : Bool}
    (habsorbing : Absorbing ctx' g (m.bits.getD 0) message)
    (hpadded : padded = decide (message.length % 8 ≠ 0)) : Follows ctx' { m with padded } where
  -- Only the padded component moves; stage and length are those of the message that goes on.
  phase_eq := by
    unfold Lifecycle.phase
    simp only [hstage]
    exact habsorbing.phase_eq
  bits_eq := by
    intro hprepared
    rw [hstage] at hprepared
    cases hprepared
  savedBits_eq := hsame.savedBits_eq.trans h.savedBits_eq
  absorbing _ := ⟨g, message, habsorbing, hpadded⟩

/-- `update` is refused on both sides, or leaves the machine where it stands. -/
theorem after_update (h : Follows ctx m) (data : Bytes) : FollowsAfter ctx m (.update data) := by
  rcases h.input_cases with
    ⟨e, hfault, hrefused⟩ | ⟨hfault, hstage, hpadded, g, message, habsorbing, halign⟩
  · exact h.after_error (apply_update (update_of_refused hrefused data)) hfault
  · obtain ⟨ctx', hupdate, hsame, habsorbing'⟩ := habsorbing.update halign data
    have halign' := Bits.length_append_ofBytes_mod halign data
    refine after_ok (apply_update hupdate) hfault (h.of_absorbing hstage hsame habsorbing' ?_)
    -- Behind whole bytes the message is still on a byte boundary.
    rw [hpadded, decide_eq_false (not_not_intro halign')]

/-- `updateBits` has three outcomes on both sides, in the same order of precedence. -/
theorem after_updateBits (h : Follows ctx m) (data : Bytes) (bitCount : Nat) :
    FollowsAfter ctx m (.updateBits data bitCount) := by
  rcases h.input_cases with
    ⟨e, hfault, hrefused⟩ | ⟨hfault, hstage, _, g, message, habsorbing, halign⟩
  · have hfault' : m.fault? (.updateBits data bitCount) = some (.sequence e) := by
      simp only [Lifecycle.fault?, hfault]
    exact h.after_error (apply_updateBits (updateBits_of_refused hrefused data bitCount)) hfault'
  rcases Nat.lt_or_ge (8 * data.length) bitCount with hshort | hlen
  · have hfault' : m.fault? (.updateBits data bitCount) = some (.parameter .bitCount) := by
      simp only [Lifecycle.fault?, hfault, if_pos hshort]
    exact h.after_error (apply_updateBits (habsorbing.updateBits_of_short halign hshort)) hfault'
  · have hfault' : m.fault? (.updateBits data bitCount) = none := by
      simp only [Lifecycle.fault?, hfault, if_neg (Nat.not_lt_of_ge hlen)]
    obtain ⟨ctx', hupdate, hsame, habsorbing'⟩ := habsorbing.updateBits halign hlen
    refine after_ok (apply_updateBits hupdate) hfault'
      (h.of_absorbing hstage hsame habsorbing' ?_)
    -- The bit count decides whether the machine is padded.
    rw [Bits.length_append_leading_mod halign hlen]

/-- `finish` looks at the stage before it looks at the buffer, on both sides. -/
theorem after_finish (h : Follows ctx m) (out : Bytes) : FollowsAfter ctx m (.finish out) := by
  rcases h.stage_cases with ⟨e, hfault, houtside⟩ | ⟨hfault, hstage, g, message, habsorbing, _⟩
  · have hfault' : m.fault? (.finish out) = some (.sequence e) := by
      simp only [Lifecycle.fault?, hfault]
    exact h.after_error (apply_finish (finish_of_outside houtside out)) hfault'
  rcases Nat.lt_or_ge out.length (byteCount (m.bits.getD 0)) with hshort | hroom
  · have hfault' : m.fault? (.finish out) = some (.parameter .outputTooSmall) := by
      simp only [Lifecycle.fault?, hfault, if_pos hshort]
    exact h.after_error (apply_finish (habsorbing.finish_of_short hshort)) hfault'
  · have hfault' : m.fault? (.finish out) = none := by
      simp only [Lifecycle.fault?, hfault, if_neg (Nat.not_lt_of_ge hroom)]
    obtain ⟨ctx', hfinish, hsame, hphase⟩ := habsorbing.finish hroom
    refine after_ok (apply_finish hfinish) hfault' ?_
    -- Behind the output the relation says nothing about the message any more.
    exact ⟨hphase, nofun, hsame.savedBits_eq.trans h.savedBits_eq, nofun⟩

/-- Every call has the outcome that the machine says. -/
theorem step (h : Follows ctx m) (call : Call) : FollowsAfter ctx m call := by
  cases call with
  | init bits => exact h.after_init bits
  | initWithKey key bits => exact h.after_initWithKey key bits
  | initFromSaved => exact h.after_initFromSaved
  | update data => exact h.after_update data
  | updateBits data bitCount => exact h.after_updateBits data bitCount
  | finish out => exact h.after_finish out

/-- So has every call of a run. -/
theorem run (h : Follows ctx m) (calls : List Call) :
    (ctx.run calls).1.map Reply.outcome = (m.run calls).1 ∧
      Follows (ctx.run calls).2 (m.run calls).2 := by
  -- The induction is on the calls, for all contexts and machines in the relation.
  induction calls generalizing ctx m with
  | nil => exact ⟨rfl, h⟩
  | cons call rest ih =>
    obtain ⟨houtcome, hfollows, _⟩ := h.step call
    obtain ⟨houtcomes, hrest⟩ := ih hfollows
    exact ⟨List.cons_eq_cons.mpr ⟨houtcome, houtcomes⟩, hrest⟩

end Follows

/-! ## Runs -/

/-- **The lifecycle decides.** In every run from a new context the outcomes are those of the
    machine, after it the context stands where the machine stands, and a call that fails then
    changes nothing. -/
theorem run_follows_lifecycle (s : StateSize) (calls : List Call) :
    let ctx := ((Context.new s).run calls).2
    let m := (Lifecycle.run .new calls).2
    ((Context.new s).run calls).1.map Reply.outcome = (Lifecycle.run .new calls).1 ∧
    ctx.phase = m.phase ∧ ctx.savedBits = m.saved ∧
    (m.stage = .absorbing → ctx.state.tweak.isBitPad = m.padded) ∧
    ctx.outputBits = m.bits.getD 0 ∧ ctx.outputLen = byteCount (m.bits.getD 0) ∧
    ∀ call, (ctx.apply call).1.outcome = (m.step call).1 ∧
      ((ctx.apply call).1.succeeded = false → (ctx.apply call).2 = ctx) := by
  intro ctx m
  -- The run lemma from the two new states; the rest is read off the relation.
  obtain ⟨houtcomes, hfollows⟩ := (follows_new s).run calls
  refine ⟨houtcomes, hfollows.phase_eq, hfollows.savedBits_eq, hfollows.isBitPad_eq,
    hfollows.outputBits_eq, congrArg byteCount hfollows.outputBits_eq, fun call => ?_⟩
  have hcall := hfollows.step call
  exact ⟨hcall.outcome_eq, hcall.unchanged⟩

end SkeinHash.Context
