import SkeinHash.StateSize
import SkeinHash.Text.Blank
import SkeinHash.Text.Decimal
import SkeinHash.Text.Split

/-!
# Header lines of known answers

A header gives the state size, the output length and the message length:

```text
:Skein-256:  256-bit hash, msgLen =     8 bits, data = 'random', MAC
```

Each number ends at the first occurrence of the text that follows it and is trimmed. What stands
behind the message length is free: the vector has a key if that part ends with `MAC`, up to white
space, and is one of tree mode if the part contains `Tree`.
-/

namespace SkeinHash.KnownAnswer

/-- What a header declares. -/
structure Header where
  /-- The state size. -/
  size : StateSize
  /-- The output length in bits. -/
  outputBits : Nat
  /-- The message length in bits. -/
  messageBits : Nat
  /-- Whether the vector has a key. -/
  isKeyed : Bool
  /-- Whether the vector is one of tree mode. -/
  isTree : Bool
deriving DecidableEq

namespace Header

/-- What every header begins with. -/
def lead : List Char := ":Skein-".toList

/-- Whether a line is a header line, well formed or not. -/
def isHeader (text : List Char) : Bool := lead.isPrefixOf text

/-- A trimmed number up to the first occurrence of `separator`, with what follows that. -/
def number? (separator text : List Char) : Option (Nat × List Char) := do
  let (digits, rest) ← Text.splitFirst? separator text
  return (← Text.Decimal.parse? (Text.trim digits), rest)

/-- Reads a header line. -/
def parse? (text : List Char) : Option Header := do
  let (stateBits, rest) ← number? [':'] (← Text.afterStart? lead text)
  let size ← StateSize.ofBits? stateBits
  let (outputBits, rest) ← number? "-bit hash,".toList rest
  let (messageBits, rest) ←
    number? "bits".toList (← Text.afterStart? "msgLen =".toList (Text.trimLeft rest))
  return {
    size, outputBits, messageBits
    -- Neither is looked for in front of the message length.
    isKeyed := (Text.beforeEnd? "MAC".toList (Text.trimRight rest)).isSome
    isTree := (Text.splitFirst? "Tree".toList rest).isSome }

end Header

end SkeinHash.KnownAnswer
