import SkeinHash.KnownAnswer.Run
import SkeinHash.Proofs.JobReplay
import SkeinHash.Proofs.ReadingSound

/-!
# What can be read can be checked

A list of known answers that has been read is fit for a context: the message of a vector has as many
bits as its length says, and its output is as long as the output of the context. So the calls that
check a vector succeed, unless the output length is zero, and a run over a file tells exactly which
vectors are right.

- `KnownAnswer.output`, `Right`: the output that a vector should have
- `Fits.callsSucceed`, `Fits.check_eq`: the calls for a vector, and the check that makes them
- `runVectors_eq`: a run comes to every vector and counts those that fail
- `run_check`: a run over a file
-/

namespace SkeinHash.KnownAnswer

open Context (Absorbing)
open Ubi.Blockwise (keyed passBits)

/-! ## The output of a vector -/

/-- What a context has to do for a vector. -/
def job (v : KnownAnswer) : Context.Job :=
  ⟨v.key.getD [], v.outputBits, Bits.leading v.message v.messageBits⟩

/-- The output for the message of a vector, under its key if it has one. -/
def output (v : KnownAnswer) : Bytes := v.job.output v.size

/-- A vector states the output for its message. There is no output of length zero. -/
def Right (v : KnownAnswer) : Prop := 0 < v.outputBits ∧ v.result = v.output

instance (v : KnownAnswer) : Decidable v.Right := inferInstanceAs (Decidable (_ ∧ _))

/-- The calls for a vector succeed on a new context, with `out` as the buffer: its start, its
    message and the output, which fills the buffer. From the start on the context tells the length
    of the output. -/
def CallsSucceed (v : KnownAnswer) (out : Bytes) : Prop :=
  ∃ ctx₁ ctx₂ ctx₃, v.start = (.ok (), ctx₁) ∧
    ctx₁.updateBits v.message v.messageBits = (.ok (), ctx₂) ∧
    ctx₂.finish out = (.ok (), v.output, ctx₃) ∧
    ctx₁.outputLen = v.result.length ∧ ctx₂.outputLen = v.result.length ∧
    ctx₃.outputLen = v.result.length

/-- The message and the output of a vector are as long as declared. -/
structure Fits (v : KnownAnswer) : Prop where
  message_length : v.message.length = byteCount v.messageBits
  result_length : v.result.length = byteCount v.outputBits

/-- A vector that has been read fits. -/
theorem fits_of_parse {canReserve : Nat → Bool} {text : List Char} {vectors : List KnownAnswer}
    (h : parse canReserve text = .ok vectors) : ∀ v ∈ vectors, v.Fits := by
  -- At the end of the text the reader is between vectors.
  cases Reader.sound_readLines (parse_eq_ok_iff.1 h) with
  | between _ hcomplete =>
    exact fun v hv => ⟨(hcomplete v hv).message_length, (hcomplete v hv).result_length⟩

/-! ## One vector -/

section OneVector

variable {v : KnownAnswer}

/-- A context starts on a vector with a positive output length, with its key if it has one. -/
theorem start_of_pos (hbits : 0 < v.outputBits) :
    ∃ ctx, v.start = (.ok (), ctx) ∧ Absorbing ctx (v.job.start v.size) v.outputBits [] := by
  have hne : v.outputBits ≠ 0 := Nat.ne_of_gt hbits
  unfold start job
  -- With a key the context is saved as well, which makes no difference here.
  cases v.key with
  | none =>
    obtain ⟨ctx, hinit, -, habsorbing⟩ := (Context.new v.size).initKeyed_of_pos [] hne
    exact ⟨ctx, hinit, habsorbing⟩
  | some key =>
    obtain ⟨ctx, hinit, -, -, habsorbing⟩ := (Context.new v.size).initWithKey_of_pos key hne
    exact ⟨ctx, hinit, habsorbing⟩

/-- No context starts on a vector without an output. -/
theorem start_of_zero (hbits : v.outputBits = 0) :
    v.start = (.error .outputBits, Context.new v.size) := by
  unfold start
  rw [hbits]
  cases v.key <;> rfl

/-- A context that absorbs a message tells the length of its output. -/
theorem outputLen_of_absorbing {s : StateSize} {ctx : Context s} {g : Block s} {bits : Nat}
    {message : Bits} (h : Absorbing ctx g bits message) : ctx.outputLen = byteCount bits := by
  unfold Context.outputLen Context.outputBits
  rw [h.phase_eq]

/-- A message that fits has all the bits that are declared. -/
theorem Fits.messageBits_le (h : v.Fits) : v.messageBits ≤ 8 * v.message.length :=
  (byteCount_le_iff _ _).1 (Nat.le_of_eq h.message_length.symm)

/-- The calls for a vector succeed in a buffer as long as the stated output. -/
theorem Fits.callsSucceed (h : v.Fits) (hbits : 0 < v.outputBits) {out : Bytes}
    (hout : out.length = v.result.length) : v.CallsSucceed out := by
  have hlen : out.length = byteCount v.outputBits := hout.trans h.result_length
  obtain ⟨ctx₁, hstart, habsorbing₁⟩ := start_of_pos hbits
  obtain ⟨ctx₂, hinput, -, habsorbing₂⟩ := habsorbing₁.updateBits rfl h.messageBits_le
  obtain ⟨ctx₃, hfinish, -, hphase⟩ := habsorbing₂.finish (Nat.le_of_eq hlen.symm)
  -- The buffer has no room behind the output.
  rw [List.drop_eq_nil_of_le (Nat.le_of_eq hlen), List.append_nil] at hfinish
  refine ⟨ctx₁, ctx₂, ctx₃, hstart, hinput, hfinish, ?_, ?_, ?_⟩
  · rw [outputLen_of_absorbing habsorbing₁, h.result_length]
  · rw [outputLen_of_absorbing habsorbing₂, h.result_length]
  · rw [h.result_length, Context.outputLen, Context.outputBits, hphase]

/-- A check passes on the vectors that are right. -/
theorem Fits.check_eq (h : v.Fits) :
    v.check = if v.Right then .ok () else .error .unspecified := by
  unfold check compute
  -- A vector without an output fails the check, and is not right by definition.
  by_cases hbits : v.outputBits = 0
  · have hwrong : ¬ v.Right := fun hright => Nat.ne_of_gt hright.1 hbits
    rw [start_of_zero hbits, if_neg hwrong]
  · have hpos : 0 < v.outputBits := Nat.pos_of_ne_zero hbits
    have hcalls : v.CallsSucceed (List.replicate v.result.length 0) :=
      h.callsSucceed hpos List.length_replicate
    obtain ⟨ctx₁, ctx₂, ctx₃, hstart, hinput, hfinish, -⟩ := hcalls
    have hright : v.output = v.result ↔ v.Right := by simp [Right, hpos, eq_comm]
    simp only [hstart, hinput, hfinish, hright]

end OneVector

/-! ## Runs -/

section Runs

variable {σ : Type} {canReserve : Nat → Bool}

/-- A test whose verdict does not hang on the state comes to every vector, in order and also after
    failures, and all failures are counted. -/
theorem runVectors_eq (verdict : KnownAnswer → Except Unspecified Unit) (note : σ → KnownAnswer → σ)
    (vectors : List KnownAnswer) (s : σ) :
    runVectors (fun v s => (verdict v, note s v)) vectors s =
      (vectors.countP fun v => !(verdict v).isOk, vectors.foldl note s) := by
  induction vectors generalizing s with
  | nil => rfl
  | cons v rest ih =>
    simp only [runVectors, ih, List.foldl_cons, List.countP_cons]
    -- A failure counts one, a success nothing, and the rest is run in either case.
    cases (verdict v).isOk <;> simp [Nat.add_comm]

/-- Every vector that is not one of tree mode is checked, and the wrong ones are counted. -/
theorem runVectors_check {vectors : List KnownAnswer} (h : ∀ v ∈ vectors, v.Fits)
    (note : σ → KnownAnswer → σ) (s : σ) :
    runVectors (fun v s => (v.check, note s v)) vectors s =
      (vectors.countP fun v => decide ¬ v.Right, vectors.foldl note s) := by
  rw [runVectors_eq]
  congr 1
  refine List.countP_congr fun v hv => ?_
  rw [(h v hv).check_eq]
  by_cases hright : v.Right
  · simp [hright, Except.isOk, Except.toBool]
  · simp [hright, Except.isOk, Except.toBool]

/-- **What can be read can be checked.** If a text can be read, the calls that check a vector all
    succeed, unless its output length is zero, in every buffer as long as its output. A run that
    makes them comes to every vector that is not one of tree mode, in the order of the text and also
    after failures, whatever is noted of them on the way. It passes if there are vectors and all
    that it came to are right; otherwise, if there are vectors, it tells how many are not. -/
theorem run_check {text : List Char} {vectors : List KnownAnswer}
    (h : parse canReserve text = .ok vectors) (note : σ → KnownAnswer → σ) (s : σ) :
    let checked := vectors.filter (!·.isTree)
    let ended := run canReserve (fun v s => (v.check, note s v)) text s
    (∀ v ∈ vectors, 0 < v.outputBits → ∀ out : Bytes, out.length = v.result.length →
      v.CallsSucceed out) ∧
    ended.2 = checked.foldl note s ∧
    (ended.1 = .ok () ↔ vectors ≠ [] ∧ ∀ v ∈ checked, v.Right) ∧
    (vectors ≠ [] → (∃ v ∈ checked, ¬ v.Right) →
      ended.1 = .error (.failed (checked.countP fun v => decide ¬ v.Right))) := by
  intro checked ended
  have hfits : ∀ v ∈ vectors, v.Fits := fits_of_parse h
  have hrun : runVectors (fun v s => (v.check, note s v)) checked s =
      (checked.countP fun v => decide ¬ v.Right, checked.foldl note s) :=
    runVectors_check (fun v hv => hfits v (List.mem_of_mem_filter hv)) note s
  have hzero : (checked.countP fun v => decide ¬ v.Right) = 0 ↔ ∀ v ∈ checked, v.Right := by
    simp [List.countP_eq_zero]
  refine ⟨fun v hv hbits out hout => (hfits v hv).callsSucceed hbits hout, ?_⟩
  -- Without vectors the run has an error of its own.
  cases vectors with
  | nil =>
    have hended : ended = (.error .noVectors, s) := by simp only [ended, run, h]
    rw [hended]
    exact ⟨rfl, by simp, by simp⟩
  | cons first rest =>
    have hended : ended =
        (if (checked.countP fun v => decide ¬ v.Right) = 0 then .ok ()
          else .error (.failed (checked.countP fun v => decide ¬ v.Right)),
          checked.foldl note s) := by
      simp only [ended, run, h]
      rw [hrun]
    rw [hended]
    refine ⟨rfl, ?_, ?_⟩
    · rw [← hzero]
      split <;> simp_all
    · rintro - ⟨v, hv, hwrong⟩
      exact if_neg fun hall => hwrong (hzero.1 hall v hv)

/-- Three vectors: one is right, one has an output length of zero, and one of tree mode is passed
    over. -/
theorem run_check_zero_length :
    let text := ":Skein-256: 8-bit hash, msgLen = 0 bits\nResult:\n34\n----\n".toList ++
      ":Skein-256: 0-bit hash, msgLen = 3 bits\nMessage data:\n20\n----\n".toList ++
      ":Skein-256: 8-bit hash, msgLen = 0 bits, Tree\nResult:\n00\n----\n".toList
    let first : KnownAnswer := ⟨1, .skein256, 8, 0, [], none, [0x34], false⟩
    let second : KnownAnswer := ⟨5, .skein256, 0, 3, [0x20], none, [], false⟩
    let third : KnownAnswer := ⟨9, .skein256, 8, 0, [], none, [0x00], true⟩
    parse fitsAddressSpace text = .ok [first, second, third] ∧
    first.Right ∧ ¬ second.Right ∧ first.CallsSucceed [7] ∧
    run fitsAddressSpace (fun v lines => (v.check, lines ++ [v.line])) text [] =
      (.error (.failed 1), [1, 5]) := by
  intro text first second third
  have hparse : parse fitsAddressSpace text = .ok [first, second, third] := by decide +kernel
  have hfirst : first.Right := by decide +kernel
  have hsecond : ¬ second.Right := fun hright => absurd hright.1 (by decide)
  obtain ⟨hcalls, hnoted, -, hfailed⟩ :=
    run_check hparse (fun lines (v : KnownAnswer) => lines ++ [v.line]) []
  refine ⟨hparse, hfirst, hsecond, hcalls first (by simp) (by decide) [7] rfl, ?_⟩
  -- The vector of tree mode is not among those that are counted.
  have hcount :
      ([first, second, third].filter (!·.isTree)).countP (fun v => decide ¬ v.Right) = 1 := by
    change [first, second].countP (fun v => decide ¬ v.Right) = 1
    simp [hfirst, hsecond]
  rw [hcount] at hfailed
  exact Prod.ext (hfailed (by simp) ⟨second, by simp [first, second, third], hsecond⟩) hnoted

end Runs

end SkeinHash.KnownAnswer
