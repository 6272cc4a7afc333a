import SkeinHash.KnownAnswer
import SkeinHash.KnownAnswer.HexData
import SkeinHash.KnownAnswer.Line
import SkeinHash.Text.Lines
import SkeinHash.Text.Quoted

/-!
# Reading known answers

A file of known answers is a sequence of vectors, each from a header line to a line of dashes. In
between, headings say what the data lines below them hold: the message, the output or, exactly in
vectors with a key, the key. Headings may come in any order. Lines outside of vectors are skipped.

A buffer is reserved for each part of a vector when its length is declared. Whether a reservation
succeeds is up to the environment, hence a parameter. A part must have exactly its declared length
when its vector ends.

- `Reader`, `Reader.step`: the state between two lines, and what a line does to it
- `parse`: all vectors of a text
-/

namespace SkeinHash.KnownAnswer

/-! ## Errors -/

/-- What is wrong with a line. -/
inductive Reason where
  /-- A header comes before the end of the vector before it. -/
  | headerInsideVector
  /-- A header is not well formed. -/
  | unrecognizedHeader
  /-- A vector ends with a message of another length than declared. -/
  | messageLength
  /-- A vector ends with an output of another length than declared. -/
  | resultLength
  /-- A vector ends with a key of another length than declared. -/
  | keyLength
  /-- A vector that should have a key ends without the heading of one. -/
  | missingKey
  /-- The length in the heading of a key is not readable. -/
  | badKeyLength
  /-- A vector has a second heading of a key. -/
  | secondKey
  /-- A vector without a key has the heading of one. -/
  | unexpectedKey
  /-- Data comes before any heading. -/
  | dataOutsideSection
  /-- A data line is not readable. -/
  | data (fault : DataFault)
deriving DecidableEq

/-- The reason in words. -/
def Reason.message : Reason → String
  | headerInsideVector => "header inside a vector"
  | unrecognizedHeader => "unrecognized header"
  | messageLength => "message length doesn't match msgLen"
  | resultLength => "result length doesn't match the hash length"
  | keyLength => "MAC key length doesn't match the declared length"
  | missingKey => "missing MAC key"
  | badKeyLength => "bad MAC key length"
  | secondKey => "second MAC key"
  | unexpectedKey => "MAC key in a vector without MAC"
  | dataOutsideSection => "data outside of a section"
  | data fault => fault.message

/-- Why a text cannot be read. -/
inductive ReadError where
  /-- A line is not as it should be. -/
  | malformed (line : Nat) (reason : Reason) (text : List Char)
  /-- The text ends inside the vector with this header line. -/
  | unterminated (line : Nat)
  /-- A buffer could not be reserved. -/
  | allocation (cause : AllocationFailure)
deriving DecidableEq

/-- The error in words. A line that is not as it should be is quoted. -/
def ReadError.message : ReadError → String
  | malformed line reason text =>
    "line " ++ toString line ++ ": " ++ reason.message ++ ": " ++ String.ofList (Text.quoted text)
  | unterminated line => "line " ++ toString line ++ ": unterminated vector"
  | allocation cause => cause.message

/-! ## Vectors in progress -/

/-- The part of a vector that data lines belong to. -/
inductive Part where
  /-- No part yet. -/
  | none
  /-- The message. -/
  | message
  /-- The key. -/
  | key
  /-- The output. -/
  | result
deriving DecidableEq

/-- A vector whose end has not come yet. -/
structure Pending where
  /-- What has been read of it. -/
  vector : KnownAnswer
  /-- What data lines belong to. -/
  part : Part
  /-- The declared length of the key, from its heading on. -/
  keyLength : Option Nat
deriving DecidableEq

/-- Whether a buffer of a given length can be reserved: it has to fit into the address space. -/
def fitsAddressSpace (length : Nat) : Bool := length < 1 <<< 47

/-- Reserves a buffer. -/
def reserve (canReserve : Nat → Bool) (length : Nat) : Except ReadError Unit :=
  if canReserve length then .ok () else .error (.allocation ⟨length⟩)

namespace Pending

/-- The vector that a header begins. Its buffers are reserved, that of the message first. -/
def ofHeader (canReserve : Nat → Bool) (line : Nat) (h : Header) : Except ReadError Pending := do
  reserve canReserve (byteCount h.messageBits)
  reserve canReserve (byteCount h.outputBits)
  return {
    vector := {
      line, size := h.size, outputBits := h.outputBits, messageBits := h.messageBits
      message := [], key := if h.isKeyed then some [] else none, result := [], isTree := h.isTree }
    part := .none
    keyLength := none }

/-- What is wrong with the lengths of a vector that ends, if anything. -/
def lengthFault? (p : Pending) : Option Reason :=
  if p.vector.message.length ≠ byteCount p.vector.messageBits then some .messageLength
  else if p.vector.result.length ≠ byteCount p.vector.outputBits then some .resultLength
  else
    -- The length of a key is that of its heading, not of the header.
    match p.vector.key, p.keyLength with
    | none, _ => none
    | some _, none => some .missingKey
    | some key, some length => if key.length = length then none else some .keyLength

/-- Adds a data line to the part that it belongs to. -/
def addData (p : Pending) (text : Bytes) : Except Reason Pending :=
  let put (limit : Nat) (held : Bytes) (fill : Bytes → KnownAnswer) : Except Reason Pending :=
    match appendData limit held text with
    | (.error fault, _) => .error (.data fault)
    | (.ok (), bytes) => .ok { p with vector := fill bytes }
  match p.part, p.vector.key, p.keyLength with
  | .message, _, _ =>
    put (byteCount p.vector.messageBits) p.vector.message fun b => { p.vector with message := b }
  | .result, _, _ =>
    put (byteCount p.vector.outputBits) p.vector.result fun b => { p.vector with result := b }
  | .key, some key, some length => put length key fun b => { p.vector with key := some b }
  -- The key is open only behind its heading, which a vector without one does not have.
  | _, _, _ => .error .dataOutsideSection

end Pending

/-! ## Lines one by one -/

/-- The state between two lines. -/
structure Reader where
  /-- The vectors that have ended. -/
  vectors : List KnownAnswer
  /-- The vector that has not. -/
  pending : Option Pending
deriving DecidableEq

namespace Reader

/-- The state before the first line. -/
def new : Reader := ⟨[], none⟩

/-- What a line inside a vector does, other than a header. -/
def stepInside (canReserve : Nat → Bool) (r : Reader) (p : Pending)
    (refuse : Reason → ReadError) : Line → Except ReadError Reader
  -- A header is out of place here, well formed or not.
  | .header _ => .error (refuse .headerInsideVector)
  | .blank | .noData => .ok r
  | .rule =>
    match p.lengthFault? with
    | some reason => .error (refuse reason)
    | none => .ok ⟨r.vectors ++ [p.vector], none⟩
  | .messageHeading => .ok { r with pending := some { p with part := .message } }
  | .resultHeading => .ok { r with pending := some { p with part := .result } }
  | .keyHeading none => .error (refuse .badKeyLength)
  | .keyHeading (some length) =>
    -- A heading that is refused reserves nothing.
    match p.vector.key, p.keyLength with
    | none, _ => .error (refuse .unexpectedKey)
    | some _, some _ => .error (refuse .secondKey)
    | some _, none => do
      reserve canReserve length
      return { r with pending := some { p with part := .key, keyLength := some length } }
  | .data text =>
    match p.addData text with
    | .error reason => .error (refuse reason)
    | .ok p => .ok { r with pending := some p }

/-- What a line outside of vectors does. -/
def stepOutside (canReserve : Nat → Bool) (r : Reader) (number : Nat)
    (refuse : Reason → ReadError) : Line → Except ReadError Reader
  | .header none => .error (refuse .unrecognizedHeader)
  | .header (some h) => do
    return { r with pending := some (← Pending.ofHeader canReserve number h) }
  | _ => .ok r

/-- What the line with a given number does. -/
def step (canReserve : Nat → Bool) (r : Reader) (numbered : List Char × Nat) :
    Except ReadError Reader :=
  let (text, number) := numbered
  let refuse := fun reason => ReadError.malformed number reason text
  match r.pending with
  | some p => r.stepInside canReserve p refuse (Line.ofText text)
  | none => r.stepOutside canReserve number refuse (Line.ofText text)

/-- The vectors at the end of the text, where none may be unfinished. -/
def close (r : Reader) : Except ReadError (List KnownAnswer) :=
  match r.pending with
  | some p => .error (.unterminated p.vector.line)
  | none => .ok r.vectors

end Reader

/-- All vectors of a text. Lines are numbered from 1. -/
def parse (canReserve : Nat → Bool) (text : List Char) : Except ReadError (List KnownAnswer) := do
  let r ← ((Text.lines text).zipIdx 1).foldlM (Reader.step canReserve) Reader.new
  r.close

end SkeinHash.KnownAnswer
