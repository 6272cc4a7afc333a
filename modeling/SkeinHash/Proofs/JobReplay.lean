import SkeinHash.Context.History
import SkeinHash.Proofs.ContextOperations

/-!
# Every output can be made afresh

Whatever calls a context has gone through, in whatever order and with whatever failures, the output
it gives is the one that a fresh context gives for the same job: the key, the output length and the
message that its history has noted.

- `Recorded`: the relation between a context and its history
- `Recorded.apply`, `Recorded.run`: every call keeps it, and so does every run
- `finish_eq_fresh`: outputs of contexts and of incremental MACs
-/

namespace SkeinHash.Context

open Ubi.Blockwise (keyed passBits)

variable {s : StateSize} {ctx ctx' : Context s} {h : History}

/-! ## The relation between context and history -/

/-- The chaining value that the message of a job starts from. -/
def Job.start (s : StateSize) (job : Job) : Block s := keyed (.threefish s) job.key job.bits

/-- The output of a job. -/
def Job.output (s : StateSize) (job : Job) : Bytes :=
  Ubi.Blockwise.output (.threefish s)
    (passBits (.threefish s) (job.start s) .message job.message) job.bits

/-- `ctx` is where a job has brought it: inside the message, or behind the output. -/
def Doing (ctx : Context s) : Option Job → Prop
  | none => ctx.phase = .prepared
  | some job => job.bits ≠ 0 ∧
    (ctx.phase = .finalized job.bits ∨ Absorbing ctx (job.start s) job.bits job.message)

/-- The saved state of `ctx` is the one of the given key and output length. -/
def HasSaved (ctx : Context s) : Option (Bytes × Nat) → Prop
  | none => ctx.savedBits = none
  | some (key, bits) => bits ≠ 0 ∧ ctx.savedBits = some bits ∧
    ctx.state.saved = keyed (.threefish s) key bits

/-- `ctx` is where the calls that `h` has noted have brought it. -/
structure Recorded (ctx : Context s) (h : History) : Prop where
  doing : Doing ctx h.current
  hasSaved : HasSaved ctx h.saved

/-- A new context has no job and has saved nothing. -/
theorem recorded_new (s : StateSize) : Recorded (Context.new s) History.new := ⟨rfl, rfl⟩

/-- What has been saved stays known as long as nothing else is saved. -/
theorem HasSaved.of_sameSaved {saved : Option (Bytes × Nat)} (hsaved : HasSaved ctx saved)
    (hsame : SameSaved ctx ctx') : HasSaved ctx' saved := by
  -- Both parts of what is saved are read off the context, and neither has changed.
  cases saved with
  | none => exact hsame.savedBits_eq.trans hsaved
  | some keyAndBits =>
    obtain ⟨hbits, hlength, hstate⟩ := hsaved
    exact ⟨hbits, hsame.savedBits_eq.trans hlength, hsame.saved_eq.trans hstate⟩

/-- A context is outside of a message, or it takes in the message of its job. -/
theorem Recorded.outside_or_absorbing (hrec : Recorded ctx h) :
    (∃ e, ctx.checkAbsorbing = .error e) ∨
    ∃ job, h.current = some job ∧ job.bits ≠ 0 ∧
      Absorbing ctx (job.start s) job.bits job.message := by
  have hdoing := hrec.doing
  unfold checkAbsorbing
  -- The record has a current message exactly from the first start on; it may have been finished.
  cases hcurrent : h.current with
  | none =>
    rw [hcurrent] at hdoing
    left
    rw [show ctx.phase = .prepared from hdoing]
    exact ⟨_, rfl⟩
  | some job =>
    rw [hcurrent] at hdoing
    obtain ⟨hbits, hfinalized | habsorbing⟩ := hdoing
    · left
      rw [hfinalized]
      exact ⟨_, rfl⟩
    · exact .inr ⟨job, rfl, hbits, habsorbing⟩

/-! ## One call -/

/-- The relation holds after a call from `ctx`. -/
def RecordedAfter (ctx : Context s) (h : History) (call : Call) : Prop :=
  Recorded (ctx.apply call).2 (h.recordAll [(call, (ctx.apply call).1)])

/-- A failing call leaves everything as it is. -/
theorem Recorded.after_error (hrec : Recorded ctx h) {call : Call} {e : Failure} {out : Bytes}
    (hcall : ctx.apply call = (⟨.error e, out⟩, ctx)) : RecordedAfter ctx h call := by
  unfold RecordedAfter
  rw [hcall]
  exact hrec

/-- A call that succeeds is noted in the history. -/
theorem Recorded.after_ok {call : Call} {out : Bytes}
    (hcall : ctx.apply call = (⟨.ok (), out⟩, ctx')) (hrec : Recorded ctx' (h.record call)) :
    RecordedAfter ctx h call := by
  unfold RecordedAfter
  rw [hcall]
  exact hrec

namespace Recorded

/-- `init` begins a job without a key, unless no output is asked for. -/
theorem after_init (hrec : Recorded ctx h) (bits : Nat) : RecordedAfter ctx h (.init bits) := by
  by_cases hbits : bits = 0
  · subst hbits
    exact hrec.after_error (apply_init (ctx.initKeyed_zero []))
  · -- The new message is empty, as is the message of the new job.
    obtain ⟨ctx', hinit, hsame, habsorbing⟩ := ctx.initKeyed_of_pos [] hbits
    exact after_ok (apply_init hinit)
      ⟨⟨hbits, .inr habsorbing⟩, hrec.hasSaved.of_sameSaved hsame⟩

/-- `initWithKey` begins a job with a key and saves its keyed state. -/
theorem after_initWithKey (hrec : Recorded ctx h) (key : Bytes) (bits : Nat) :
    RecordedAfter ctx h (.initWithKey key bits) := by
  by_cases hbits : bits = 0
  · subst hbits
    exact hrec.after_error (apply_initWithKey (ctx.initWithKey_zero key))
  · obtain ⟨ctx', hinit, hlength, hstate, habsorbing⟩ := ctx.initWithKey_of_pos key hbits
    exact after_ok (apply_initWithKey hinit)
      ⟨⟨hbits, .inr habsorbing⟩, hbits, hlength, hstate⟩

/-- The saved state starts the job of its key and length anew. -/
theorem after_initFromSaved (hrec : Recorded ctx h) : RecordedAfter ctx h .initFromSaved := by
  have hsaved := hrec.hasSaved
  -- What the record says was saved is what the context saved, or nothing.
  cases hkeyed : h.saved with
  | none =>
    rw [hkeyed] at hsaved
    exact hrec.after_error (apply_initFromSaved (initFromSaved_of_none hsaved))
  | some keyAndBits =>
    rw [hkeyed] at hsaved
    obtain ⟨hbits, hlength, hstate⟩ := hsaved
    obtain ⟨ctx', hinit, hsame, habsorbing⟩ := initFromSaved_of_some hlength
    rw [hstate] at habsorbing
    refine after_ok (apply_initFromSaved hinit) ⟨?_, hrec.hasSaved.of_sameSaved hsame⟩
    change Doing ctx' (h.saved.map _)
    rw [hkeyed]
    exact ⟨hbits, .inr habsorbing⟩

/-- Input is refused outside of a message and after a partial byte. -/
theorem checkAccepting_cases (hrec : Recorded ctx h) :
    (∃ e, ctx.checkAccepting = .error e) ∨
    ∃ job, h.current = some job ∧ job.bits ≠ 0 ∧ job.message.length % 8 = 0 ∧
      Absorbing ctx (job.start s) job.bits job.message := by
  rcases hrec.outside_or_absorbing with ⟨e, houtside⟩ | ⟨job, hcurrent, hbits, habsorbing⟩
  · exact .inl ⟨e, checkAccepting_of_outside houtside⟩
  -- Inside a message the flag in the tweak says whether the last byte was partial.
  by_cases halign : job.message.length % 8 = 0
  · exact .inr ⟨job, hcurrent, hbits, halign, habsorbing⟩
  · exact .inl ⟨.partialByteNotLast, habsorbing.checkAccepting_of_partial halign⟩

/-- Input that is taken in extends the message of the job. -/
theorem append (hrec : Recorded ctx h) {job : Job} (hcurrent : h.current = some job)
    (hbits : job.bits ≠ 0) (hsame : SameSaved ctx ctx') {bits : Bits}
    (habsorbing : Absorbing ctx' (job.start s) job.bits (job.message ++ bits)) :
    Recorded ctx' (h.append bits) := by
  refine ⟨?_, hrec.hasSaved.of_sameSaved hsame⟩
  unfold History.append
  rw [hcurrent]
  exact ⟨hbits, .inr habsorbing⟩

/-- `update` extends the job by whole bytes, or is refused. -/
theorem after_update (hrec : Recorded ctx h) (data : Bytes) :
    RecordedAfter ctx h (.update data) := by
  rcases hrec.checkAccepting_cases with
    ⟨e, hrefused⟩ | ⟨job, hcurrent, hbits, halign, habsorbing⟩
  · exact hrec.after_error (apply_update (update_of_refused hrefused data))
  · obtain ⟨ctx', hupdate, hsame, habsorbing'⟩ := habsorbing.update halign data
    exact after_ok (apply_update hupdate) (hrec.append hcurrent hbits hsame habsorbing')

/-- `updateBits` extends the job by bits, or is refused, be it for too few of them. -/
theorem after_updateBits (hrec : Recorded ctx h) (data : Bytes) (bitCount : Nat) :
    RecordedAfter ctx h (.updateBits data bitCount) := by
  rcases hrec.checkAccepting_cases with
    ⟨e, hrefused⟩ | ⟨job, hcurrent, hbits, halign, habsorbing⟩
  · exact hrec.after_error (apply_updateBits (updateBits_of_refused hrefused data bitCount))
  -- The number of bits is looked at only in a context that accepts input.
  rcases Nat.lt_or_ge (8 * data.length) bitCount with hshort | hlen
  · exact hrec.after_error (apply_updateBits (habsorbing.updateBits_of_short halign hshort))
  · obtain ⟨ctx', hupdate, hsame, habsorbing'⟩ := habsorbing.updateBits halign hlen
    exact after_ok (apply_updateBits hupdate) (hrec.append hcurrent hbits hsame habsorbing')

/-- What is written hangs on the job only. -/
theorem apply_finish_eq (hrec : Recorded ctx h) {job : Job} (hcurrent : h.current = some job)
    (habsorbing : Absorbing ctx (job.start s) job.bits job.message) {out : Bytes}
    (hroom : byteCount job.bits ≤ out.length) :
    ∃ ctx', ctx.apply (.finish out) =
        (⟨.ok (), job.output s ++ out.drop (byteCount job.bits)⟩, ctx') ∧ Recorded ctx' h := by
  obtain ⟨ctx', hfinish, hsame, hphase⟩ := habsorbing.finish hroom
  refine ⟨ctx', apply_finish hfinish, ?_, hrec.hasSaved.of_sameSaved hsame⟩
  have hdoing := hrec.doing
  rw [hcurrent] at hdoing ⊢
  -- The job is still the current one, now finalized.
  exact ⟨hdoing.1, .inl hphase⟩

/-- `finish` ends the message of the job and leaves the job in the history. -/
theorem after_finish (hrec : Recorded ctx h) (out : Bytes) : RecordedAfter ctx h (.finish out) := by
  rcases hrec.outside_or_absorbing with ⟨e, houtside⟩ | ⟨job, hcurrent, _, habsorbing⟩
  · exact hrec.after_error (apply_finish (finish_of_outside houtside out))
  rcases Nat.lt_or_ge out.length (byteCount job.bits) with hshort | hroom
  · exact hrec.after_error (apply_finish (habsorbing.finish_of_short hshort))
  · obtain ⟨ctx', hcall, hrec'⟩ := hrec.apply_finish_eq hcurrent habsorbing hroom
    exact after_ok hcall hrec'

/-- Every call keeps the relation, whether it succeeds or not. -/
theorem apply (hrec : Recorded ctx h) (call : Call) : RecordedAfter ctx h call := by
  cases call with
  | init bits => exact hrec.after_init bits
  | initWithKey key bits => exact hrec.after_initWithKey key bits
  | initFromSaved => exact hrec.after_initFromSaved
  | update data => exact hrec.after_update data
  | updateBits data bitCount => exact hrec.after_updateBits data bitCount
  | finish out => exact hrec.after_finish out

/-- Every run keeps the relation. -/
theorem run (hrec : Recorded ctx h) (calls : List Call) :
    Recorded (ctx.run calls).2 (h.recordAll (calls.zip (ctx.run calls).1)) := by
  -- The induction is on the calls, for all contexts and histories in the relation.
  induction calls generalizing ctx h with
  | nil => exact hrec
  | cons call rest ih => exact ih (hrec.apply call)

/-- A context that gives an output has a job. -/
theorem job_of_finish (hrec : Recorded ctx h) {out : Bytes}
    (hok : (ctx.apply (.finish out)).1.succeeded) :
    ∃ job, h.current = some job ∧ job.bits ≠ 0 ∧ ctx.outputLen = byteCount job.bits ∧
      byteCount job.bits ≤ out.length ∧
      (ctx.apply (.finish out)).1.out = job.output s ++ out.drop (byteCount job.bits) := by
  rcases hrec.outside_or_absorbing with ⟨e, houtside⟩ | ⟨job, hcurrent, hbits, habsorbing⟩
  -- A call that fails gives no output.
  · rw [apply_finish (finish_of_outside houtside out)] at hok
    cases hok
  rcases Nat.lt_or_ge out.length (byteCount job.bits) with hshort | hroom
  · rw [apply_finish (habsorbing.finish_of_short hshort)] at hok
    cases hok
  · obtain ⟨ctx', hcall, _⟩ := hrec.apply_finish_eq hcurrent habsorbing hroom
    refine ⟨job, hcurrent, hbits, ?_, hroom, by rw [hcall]⟩
    unfold outputLen outputBits
    rw [habsorbing.phase_eq]

end Recorded

/-! ## The same job on a fresh context -/

/-- `fresh` does the job with a buffer for its output, and `written` begins with the output that
    it gives. -/
def Job.Gives (job : Job) (fresh : Bytes → List Reply) (written : Bytes) : Prop :=
  byteCount job.bits ≤ written.length ∧
  ∀ buffer, byteCount job.bits ≤ buffer.length → ∃ result,
    fresh buffer = [⟨.ok (), []⟩, ⟨.ok (), []⟩, ⟨.ok (), result⟩] ∧
    result.take (byteCount job.bits) = written.take (byteCount job.bits)

/-- A context that does the job in three calls gives the output of the job. -/
theorem Job.run_calls (job : Job) (hbits : job.bits ≠ 0) (ctx : Context s) {buffer : Bytes}
    (hroom : byteCount job.bits ≤ buffer.length) :
    (ctx.run (job.calls buffer)).1 = [⟨.ok (), []⟩, ⟨.ok (), []⟩,
      ⟨.ok (), job.output s ++ buffer.drop (byteCount job.bits)⟩] := by
  -- The packed message has all of its bits.
  have hlen : job.message.length ≤ 8 * job.message.pack.length := by
    rw [Bits.length_pack, byteCount_eq]
    omega
  unfold Job.calls Job.output Job.start
  rw [ctx.run_initWithKey_updateBits_finish job.key hbits hlen hroom, Bits.leading_pack]

/-- Any context does the job, and what it gives is the output with any bytes behind it. -/
theorem Job.gives_output (job : Job) (hbits : job.bits ≠ 0) (ctx : Context s) (rest : Bytes) :
    job.Gives (fun buffer => (ctx.run (job.calls buffer)).1) (job.output s ++ rest) := by
  have hlen : (job.output s).length = byteCount job.bits := Ubi.Blockwise.length_output _ _ _
  -- The buffer behind the output differs, so only the output itself is compared.
  refine ⟨by rw [List.length_append, hlen]; omega, fun buffer hbuffer => ?_⟩
  refine ⟨_, job.run_calls hbits ctx hbuffer, ?_⟩
  rw [List.take_left' hlen, List.take_left' hlen]

/-- Calls that come later do not matter. -/
theorem reply_of_run_append {before after : List Call} {call : Call} {reply : Reply}
    (hreply : (ctx.run (before ++ call :: after)).1[before.length]? = some reply) :
    reply = ((ctx.run before).2.apply call).1 ∧
      before.zip (ctx.run (before ++ call :: after)).1 = before.zip (ctx.run before).1 := by
  have hlen := length_run ctx before
  rw [run_append] at hreply ⊢
  constructor
  · -- The reply to the call comes first in what follows the replies to `before`.
    rw [List.getElem?_append_right (Nat.le_of_eq hlen), hlen, Nat.sub_self] at hreply
    exact (Option.some.inj hreply).symm
  · -- Replies without a call in `before` fall off in the pairing.
    calc before.zip ((ctx.run before).1 ++ ((ctx.run before).2.run (call :: after)).1)
        = (before ++ []).zip
            ((ctx.run before).1 ++ ((ctx.run before).2.run (call :: after)).1) := by
          rw [List.append_nil]
      _ = before.zip (ctx.run before).1 ++ List.zip [] _ := List.zip_append hlen.symm
      _ = before.zip (ctx.run before).1 := List.append_nil _

/-- An output that is given in a run is the one of the job that the run has come to. -/
theorem job_of_run {before after : List Call} {out : Bytes} {reply : Reply}
    (hreply : ((Context.new s).run (before ++ .finish out :: after)).1[before.length]? = some reply)
    (hok : reply.succeeded) :
    ∃ job rest, (History.new.recordAll (before.zip
        ((Context.new s).run (before ++ .finish out :: after)).1)).current = some job ∧
      job.bits ≠ 0 ∧ ((Context.new s).run before).2.outputLen = byteCount job.bits ∧
      reply.out = job.output s ++ rest := by
  obtain ⟨rfl, hzip⟩ := reply_of_run_append hreply
  obtain ⟨job, hcurrent, hbits, hlen, _, hout⟩ := ((recorded_new s).run before).job_of_finish hok
  rw [hzip]
  exact ⟨job, _, hcurrent, hbits, hlen, hout⟩

/-- **Every output is the one of a fresh context.** When a call for the output succeeds, anywhere in
    a run, what it writes begins with the output of the job that the history of the run has noted,
    as a fresh context gives it in three calls. The same is true of an incremental MAC. -/
theorem finish_eq_fresh (s : StateSize) :
    (∀ (before after : List Call) (out : Bytes) (reply : Reply),
      let replies := ((Context.new s).run (before ++ .finish out :: after)).1
      replies[before.length]? = some reply → reply.succeeded →
      ∃ job, (History.new.recordAll (before.zip replies)).current = some job ∧
        ((Context.new s).run before).2.outputLen = byteCount job.bits ∧
        job.Gives (fun buffer => ((Context.new s).run (job.calls buffer)).1) reply.out) ∧
    (∀ (before after : List Mac.Call) (out : Bytes) (reply : Reply),
      let replies := ((Mac.IncrementalContext.new s).run (before ++ .finish out :: after)).1
      replies[before.length]? = some reply → reply.succeeded →
      ∃ job, (History.new.recordAll ((before.map Mac.Call.inner).zip replies)).current = some job ∧
        ((Mac.IncrementalContext.new s).run before).2.outputLen = byteCount job.bits ∧
        job.Gives (fun buffer => ((Mac.IncrementalContext.new s).run
          [.init (.keyed job.key job.bits), .updateBits job.message.pack job.message.length,
            .finish buffer]).1) reply.out) := by
  constructor
  case left =>
    intro before after out reply replies hreply hok
    obtain ⟨job, rest, hcurrent, hbits, hlen, hout⟩ := job_of_run hreply hok
    rw [hout]
    exact ⟨job, hcurrent, hlen, job.gives_output hbits (Context.new s) rest⟩
  case right =>
    intro before after out reply replies hreply hok
    -- The calls on the MAC are the calls on its hashing context that they come to.
    have hreplies : replies = ((Context.new s).run
        (before.map Mac.Call.inner ++ .finish out :: after.map Mac.Call.inner)).1 := by
      simp only [replies, Mac.IncrementalContext.run_eq, List.map_append, List.map_cons]
      rfl
    have hindex : (before.map Mac.Call.inner).length = before.length := List.length_map _
    rw [hreplies, ← hindex] at hreply
    obtain ⟨job, rest, hcurrent, hbits, hlen, hout⟩ := job_of_run hreply hok
    refine ⟨job, by rw [hreplies]; exact hcurrent, ?_, ?_⟩
    · rw [Mac.IncrementalContext.run_eq]
      exact hlen
    · have hgives := job.gives_output hbits (Context.new s) rest
      rw [hout]
      simp only [Mac.IncrementalContext.run_eq]
      exact hgives

/-- A keyed state is used again after a message without a key and after a call that fails. -/
theorem finish_eq_fresh_reused_key :
    let before : List Call := [.initWithKey [1, 2] 16, .init 8, .update [7], .initFromSaved,
      .init 0, .updateBits [0xff] 3]
    let replies := ((Context.new .skein256).run (before ++ [.finish [0, 0, 0]])).1
    let job : Job := ⟨[1, 2], 16, [true, true, true]⟩
    ∃ reply, replies[6]? = some reply ∧ reply.succeeded ∧
      (History.new.recordAll (before.zip replies)).current = some job ∧
      job.Gives (fun buffer => ((Context.new .skein256).run (job.calls buffer)).1) reply.out := by
  intro before replies job
  have hreply : replies[before.length]? = some
      (((Context.new .skein256).run before).2.apply (.finish [0, 0, 0])).1 := rfl
  have hok : (((Context.new .skein256).run before).2.apply (.finish [0, 0, 0])).1.succeeded := rfl
  obtain ⟨job', hcurrent, _, hgives⟩ :=
    (finish_eq_fresh .skein256).1 before [] [0, 0, 0] _ hreply hok
  -- The refused start for zero bits is not recorded, so the job is the reused one.
  have hjob : (History.new.recordAll (before.zip replies)).current = some job := rfl
  obtain rfl := Option.some.inj (hjob.symm.trans hcurrent)
  exact ⟨_, hreply, hok, hjob, hgives⟩

end SkeinHash.Context
