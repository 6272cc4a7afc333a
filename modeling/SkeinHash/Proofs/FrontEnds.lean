import SkeinHash.Mac
import SkeinHash.Proofs.JobReplay

/-!
# All front ends agree

There are many ways to the same tag. A key signs in one go or piece by piece, from a copy of a state
that has taken in the key. An incremental MAC takes in the key for the first message and goes back to
the saved keyed state for all later ones. A fresh context takes in the key for every message. With an
empty key the tag is the digest. All of them give the output of the job with this key, this output
length and this message, wherever the message is cut.

- `Delivery`: a message in pieces, with the calls that it takes and the replies that it gets
- `Context.run_keyed`, `Context.run_reused`: one message of a context, under a new or a saved key
- `IncrementalContext.run_sessionCalls`: the messages of an incremental MAC, in turn
- `finish_foldl_update`, `sign_eq`: digests and tags
- `tags_agree`: the tags of all front ends
-/

namespace SkeinHash.Context

open Ubi.Blockwise (keyed passBits)

/-! ## Messages in pieces -/

/-- A message in pieces, and a buffer for its output. -/
structure Delivery where
  /-- The pieces, which may be empty. -/
  pieces : List Bytes
  /-- The buffer. -/
  out : Bytes

namespace Delivery

/-- The message. -/
def message (d : Delivery) : Bytes := d.pieces.flatten

/-- The calls on a context: the start of the message, its pieces, and the output. -/
def calls (d : Delivery) (start : Call) : List Call :=
  start :: (d.pieces.map .update ++ [.finish d.out])

/-- The calls on an incremental MAC. -/
def macCalls (d : Delivery) (start : Mac.Init) : List Mac.Call :=
  .init start :: (d.pieces.map .update ++ [.finish d.out])

/-- The replies when every call succeeds and `tag` is written to the beginning of the buffer. -/
def replies (d : Delivery) (tag : Bytes) : List Reply :=
  ⟨.ok (), []⟩ :: (d.pieces.map (fun _ => ⟨.ok (), []⟩) ++
    [⟨.ok (), tag ++ d.out.drop tag.length⟩])

/-- On its hashing context an incremental MAC makes the same calls. -/
theorem map_inner_macCalls (d : Delivery) (start : Mac.Init) :
    (d.macCalls start).map Mac.Call.inner = d.calls (Mac.Call.init start).inner := by
  simp only [macCalls, calls, List.map_cons, List.map_append, List.map_map, List.map_nil]
  rfl

end Delivery

variable {s : StateSize} {ctx : Context s} {g : Block s} {key : Bytes} {bits : Nat}

/-- Pieces are taken in one after the other, and the message grows by all of them. -/
theorem Absorbing.run_updates {message : Bits} (h : Absorbing ctx g bits message)
    (halign : message.length % 8 = 0) (pieces : List Bytes) :
    ∃ ctx', ctx.run (pieces.map .update) = (pieces.map fun _ => ⟨.ok (), []⟩, ctx') ∧
      SameSaved ctx ctx' ∧ Absorbing ctx' g bits (message ++ Bits.ofBytes pieces.flatten) := by
  -- The induction is on the pieces, for every context that is between two bytes of a message.
  induction pieces generalizing ctx message with
  | nil =>
    refine ⟨ctx, rfl, ⟨rfl, rfl⟩, ?_⟩
    rwa [List.flatten_nil, show Bits.ofBytes [] = [] from rfl, List.append_nil]
  | cons piece rest ih =>
    obtain ⟨ctx₁, hupdate, hsame₁, habsorbing₁⟩ := h.update halign piece
    obtain ⟨ctx₂, hrest, hsame₂, habsorbing₂⟩ :=
      ih habsorbing₁ (Bits.length_append_ofBytes_mod halign piece)
    refine ⟨ctx₂, ?_, ⟨?_, ?_⟩, ?_⟩
    · simp only [List.map_cons, run, apply_update hupdate, hrest]
      rfl
    · exact hsame₂.savedBits_eq.trans hsame₁.savedBits_eq
    · exact hsame₂.saved_eq.trans hsame₁.saved_eq
    · rwa [List.flatten_cons, Bits.ofBytes_append, ← List.append_assoc]

/-- Behind its start a message gets its output, for its pieces put together. -/
theorem Absorbing.run_pieces_finish (h : Absorbing ctx g bits []) (d : Delivery)
    (hroom : byteCount bits ≤ d.out.length) :
    ∃ ctx', ctx.run (d.pieces.map .update ++ [.finish d.out]) =
        (d.pieces.map (fun _ => ⟨.ok (), []⟩) ++ [⟨.ok (), Ubi.Blockwise.output (.threefish s)
          (passBits (.threefish s) g .message (Bits.ofBytes d.message)) bits ++
            d.out.drop (byteCount bits)⟩], ctx') ∧ SameSaved ctx ctx' := by
  obtain ⟨ctx₁, hupdates, hsame₁, habsorbing⟩ := h.run_updates rfl d.pieces
  obtain ⟨ctx₂, hfinish, hsame₂, _⟩ := habsorbing.finish hroom
  refine ⟨ctx₂, ?_, hsame₂.savedBits_eq.trans hsame₁.savedBits_eq,
    hsame₂.saved_eq.trans hsame₁.saved_eq⟩
  -- The pieces first, and then the output from where they have led.
  rw [run_append, hupdates]
  simp only [run, apply_finish hfinish]
  rfl

/-- The output for a message of whole bytes. -/
def tagOf (s : StateSize) (key : Bytes) (bits : Nat) (message : Bytes) : Bytes :=
  (Job.mk key bits (Bits.ofBytes message)).output s

/-- A tag has as many bytes as its bits need. -/
theorem length_tagOf (s : StateSize) (key : Bytes) (bits : Nat) (message : Bytes) :
    (tagOf s key bits message).length = byteCount bits := Ubi.Blockwise.length_output _ _ _

/-- A message under a key, on a context that may have done anything before. -/
theorem run_keyed (ctx : Context s) (key : Bytes) (hbits : bits ≠ 0) (d : Delivery)
    (hroom : byteCount bits ≤ d.out.length) :
    ∃ ctx', ctx.run (d.calls (.initWithKey key bits)) =
        (d.replies (tagOf s key bits d.message), ctx') ∧ HasSaved ctx' (some (key, bits)) := by
  obtain ⟨ctx₁, hinit, hlength, hstate, habsorbing⟩ := ctx.initWithKey_of_pos key hbits
  obtain ⟨ctx₂, hrest, hsame⟩ := habsorbing.run_pieces_finish d hroom
  have hsaved : HasSaved ctx₁ (some (key, bits)) := ⟨hbits, hlength, hstate⟩
  refine ⟨ctx₂, ?_, hsaved.of_sameSaved hsame⟩
  simp only [Delivery.calls, run, apply_initWithKey hinit, hrest, Delivery.replies, length_tagOf]
  rfl

/-- A message under the key that has been saved. The key stays saved. -/
theorem run_reused (hsaved : HasSaved ctx (some (key, bits))) (d : Delivery)
    (hroom : byteCount bits ≤ d.out.length) :
    ∃ ctx', ctx.run (d.calls .initFromSaved) =
        (d.replies (tagOf s key bits d.message), ctx') ∧ HasSaved ctx' (some (key, bits)) := by
  have ⟨_, hlength, hstate⟩ := hsaved
  obtain ⟨ctx₁, hinit, hsame₁, habsorbing⟩ := initFromSaved_of_some hlength
  -- The saved chaining value is the one after the passes over the key and the configuration.
  rw [hstate] at habsorbing
  obtain ⟨ctx₂, hrest, hsame₂⟩ := habsorbing.run_pieces_finish d hroom
  refine ⟨ctx₂, ?_, (hsaved.of_sameSaved hsame₁).of_sameSaved hsame₂⟩
  simp only [Delivery.calls, run, apply_initFromSaved hinit, hrest, Delivery.replies, length_tagOf]
  rfl

/-- Every message of a session under a saved key gets the tag of its own. -/
theorem run_flatMap_reused (hsaved : HasSaved ctx (some (key, bits))) (later : List Delivery)
    (hroom : ∀ d ∈ later, byteCount bits ≤ d.out.length) :
    (ctx.run (later.flatMap fun d => d.calls .initFromSaved)).1 =
      later.flatMap fun d => d.replies (tagOf s key bits d.message) := by
  -- The induction is on the messages, for all contexts that have the key saved.
  induction later generalizing ctx with
  | nil => rfl
  | cons d rest ih =>
    obtain ⟨ctx', hrun, hsaved'⟩ := run_reused hsaved d (hroom d List.mem_cons_self)
    have hrest := ih hsaved' fun d' hd' => hroom d' (List.mem_cons_of_mem d hd')
    rw [List.flatMap_cons, List.flatMap_cons, run_append, hrun, hrest]

end SkeinHash.Context

namespace SkeinHash

open Context (Delivery tagOf)

/-! ## Digests -/

/-- A digest takes its pieces into the state of its iteration. -/
theorem foldl_update_eq (a : Algorithm) (u : Ubi a.size (Block a.size)) (pieces : List Bytes) :
    pieces.foldl DigestContext.update ⟨a, u⟩ =
      ⟨a, pieces.foldl (Ubi.absorb (.threefish a.size)) u⟩ := by
  induction pieces generalizing u with
  | nil => rfl
  | cons piece rest ih => exact ih (u.absorb (.threefish a.size) piece)

/-- A digest under a key depends on the message only, not on its pieces. -/
theorem finish_foldl_update (a : Algorithm) (key : Bytes) (pieces : List Bytes) :
    (pieces.foldl DigestContext.update (.withKey a key)).finish =
      ⟨a, tagOf a.size key a.outputBits pieces.flatten⟩ := by
  let c := Compression.threefish a.size
  have hstart : Ubi.HasRead c ((Ubi.new c).init c key a.outputBits)
      (Ubi.Blockwise.keyed c key a.outputBits) .message [] := Ubi.hasRead_init _ _ _
  -- All pieces have been read as one message, cut wherever it was.
  have hread := hstart.foldl_absorb rfl pieces
  unfold DigestContext.withKey
  rw [foldl_update_eq]
  exact congrArg (Digest.mk a) (Ubi.finish_fst hread a.outputBits)

namespace Mac

/-! ## Tags -/

/-- A tag in the making takes its pieces into the digest inside. -/
theorem foldl_signing_update (k : Key) (pieces : List Bytes) :
    pieces.foldl Signing.update (.new k) = ⟨pieces.foldl DigestContext.update k.prototype⟩ :=
  List.foldl_hom Signing.mk fun _ _ => rfl

/-- Signing piece by piece gives the tag of the whole message. -/
theorem finish_foldl_signing_update (a : Algorithm) (key : Bytes) (pieces : List Bytes) :
    (pieces.foldl Signing.update (.new (Key.ofBytes a key))).finish =
      ⟨⟨a, tagOf a.size key a.outputBits pieces.flatten⟩⟩ := by
  -- The prototype of a key is a digest under it that has not begun.
  rw [foldl_signing_update]
  exact congrArg Tag.mk (finish_foldl_update a key pieces)

/-- Signing in one go is signing in one piece. -/
theorem sign_eq (a : Algorithm) (key message : Bytes) :
    sign (Key.ofBytes a key) message = ⟨⟨a, tagOf a.size key a.outputBits message⟩⟩ := by
  have hone := finish_foldl_signing_update a key [message]
  rwa [List.flatten_singleton] at hone

/-- A digest in one go is a tag under the empty key. -/
theorem digest_eq (a : Algorithm) (message : Bytes) :
    SkeinHash.digest a message = ⟨a, tagOf a.size [] a.outputBits message⟩ := by
  have hone := finish_foldl_update a [] [message]
  rwa [List.flatten_singleton] at hone

/-- The calls for messages in turn: the key is taken in once, for the first of them. -/
def sessionCalls (key : Bytes) (bits : Nat) : List Delivery → List Call
  | [] => []
  | first :: later =>
    first.macCalls (.keyed key bits) ++ later.flatMap fun d => d.macCalls .reuse

/-- Every message of a session gets its tag, also after others under the same key. -/
theorem IncrementalContext.run_sessionCalls {s : StateSize} (ctx : IncrementalContext s)
    (key : Bytes) {bits : Nat} (hbits : bits ≠ 0) (deliveries : List Delivery)
    (hroom : ∀ d ∈ deliveries, byteCount bits ≤ d.out.length) :
    (ctx.run (sessionCalls key bits deliveries)).1 =
      deliveries.flatMap fun d => d.replies (tagOf s key bits d.message) := by
  cases deliveries with
  | nil => rfl
  | cons first later =>
    obtain ⟨ctx', hfirst, hsaved⟩ :=
      ctx.inner.run_keyed key hbits first (hroom first List.mem_cons_self)
    have hlater := Context.run_flatMap_reused hsaved later fun d hd =>
      hroom d (List.mem_cons_of_mem first hd)
    -- Seen from the hashing context, the first message is keyed and all later ones start from what
    -- was saved.
    have hcalls : (sessionCalls key bits (first :: later)).map Call.inner =
        first.calls (.initWithKey key bits) ++ later.flatMap fun d => d.calls .initFromSaved := by
      simp only [sessionCalls, List.map_append, List.map_flatMap, Delivery.map_inner_macCalls]
      rfl
    rw [run_eq, hcalls, Context.run_append, hfirst, hlater, List.flatMap_cons]

/-- **All front ends agree.** For every algorithm, every key and every list of messages, wherever
    each of them is cut: signing piece by piece gives the tag that signing in one go gives; an
    incremental MAC that takes in the key for the first message only and starts all others from the
    saved keyed state gives the same tags, one after the other, as a fresh context under the key
    does for each message. With an empty key they are the digests. -/
theorem tags_agree (a : Algorithm) (key : Bytes) (deliveries : List Delivery)
    (hroom : ∀ d ∈ deliveries, a.outputLen ≤ d.out.length) :
    let k := Key.ofBytes a key
    let tag (d : Delivery) := sign k d.message
    (∀ d, (tag d).value.length = a.outputLen ∧
      (d.pieces.foldl Signing.update (.new k)).finish = tag d) ∧
    ((IncrementalContext.new a.size).run (sessionCalls key a.outputBits deliveries)).1 =
      deliveries.flatMap (fun d => d.replies (tag d).value) ∧
    (∀ d ∈ deliveries, ((Context.new a.size).run (d.calls (.initWithKey key a.outputBits))).1 =
      d.replies (tag d).value) ∧
    (key = [] → ∀ d, (tag d).digest = SkeinHash.digest a d.message ∧
      (d.pieces.foldl DigestContext.update (.new a)).finish = SkeinHash.digest a d.message) := by
  intro k tag
  have hbits : a.outputBits ≠ 0 := Nat.ne_of_gt a.outputBits_pos
  have htag (d : Delivery) : tag d = ⟨⟨a, tagOf a.size key a.outputBits d.message⟩⟩ :=
    sign_eq a key d.message
  have hvalue (d : Delivery) : (tag d).value = tagOf a.size key a.outputBits d.message := by
    rw [htag]
    rfl
  -- Every way has been shown to give `tagOf`, so each part compares two of them.
  refine ⟨fun d => ⟨?_, ?_⟩, ?_, fun d hd => ?_, fun hkey d => ⟨?_, ?_⟩⟩
  · rw [hvalue, Context.length_tagOf]
    rfl
  · rw [htag]
    exact finish_foldl_signing_update a key d.pieces
  · simp only [hvalue]
    exact IncrementalContext.run_sessionCalls _ key hbits deliveries hroom
  · obtain ⟨ctx', hrun, _⟩ := (Context.new a.size).run_keyed key hbits d (hroom d hd)
    rw [hvalue, hrun]
  · rw [htag, digest_eq, hkey]
  · rw [digest_eq]
    exact finish_foldl_update a [] d.pieces

/-- Two messages under one key: one in pieces, of which one is empty, and one without a piece, with
    a buffer that is longer than a tag. -/
theorem tags_agree_two_messages :
    let k := Key.ofBytes .skein256_128 [1, 2, 3]
    let first : Delivery := ⟨[[0x61], [], [0x62, 0x63]], List.replicate 16 0⟩
    let second : Delivery := ⟨[], List.replicate 20 7⟩
    (∀ d ∈ [first, second], Algorithm.skein256_128.outputLen ≤ d.out.length) ∧
    ((IncrementalContext.new .skein256).run (sessionCalls [1, 2, 3] 128 [first, second])).1 =
      first.replies (sign k [0x61, 0x62, 0x63]).value ++ second.replies (sign k []).value ∧
    ((Context.new .skein256).run (second.calls (.initWithKey [1, 2, 3] 128))).1 =
      second.replies (sign k []).value := by
  intro k first second
  have hroom : ∀ d ∈ [first, second], Algorithm.skein256_128.outputLen ≤ d.out.length := by decide
  have ⟨_, hsession, hfresh, _⟩ := tags_agree .skein256_128 [1, 2, 3] [first, second] hroom
  refine ⟨hroom, ?_, hfresh second (by simp)⟩
  rw [List.flatMap_cons, List.flatMap_singleton] at hsession
  exact hsession

end Mac

end SkeinHash
