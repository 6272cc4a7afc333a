import SkeinHash.Text.Hex

/-!
# Faults in a run over an attribute file

A run ends early at a line that breaks the format (`SyntaxFault`) or at a test that gives up
(`TestFault`), mostly because an attribute is not as the test needs it. A run that reaches the end
can still fail. Each cause has its message.
-/

namespace SkeinHash.AttributeFile

/-- A line that breaks the format. -/
inductive SyntaxFault where
  /-- A section line after the first attribute of a case. -/
  | sectionInsideCase
  /-- A section line without its closing bracket. -/
  | unclosedSection
  /-- A line without a separator between name and value. -/
  | noSeparator
  /-- An attribute without a value. -/
  | emptyValue
deriving DecidableEq

/-- Why a test gives up. -/
inductive TestFault where
  /-- The case has no attribute of this name. -/
  | missing (name : List Char)
  /-- The attribute of this name was taken before. -/
  | alreadyConsumed (name : List Char)
  /-- The value begins with a quote and does not end with another. -/
  | unclosedQuote (value : List Char)
  /-- The value is neither quoted nor hexadecimal. -/
  | badHex (cause : Text.Hex.DecodeError) (value : List Char)
  /-- The value is not a number. -/
  | badInteger (value name : List Char)
  /-- The value names no algorithm. -/
  | unknownAlgorithm (value : List Char)
  /-- A cause of the test's own. -/
  | other (message : List Char)
deriving DecidableEq

/-- Why a run does not pass. -/
inductive RunFault where
  /-- The text breaks the format. -/
  | malformed (cause : SyntaxFault)
  /-- A test gave up. -/
  | abandoned (cause : TestFault)
  /-- Some case failed. -/
  | failed
  /-- There are no cases. -/
  | noCases
deriving DecidableEq

/-- The message for a line that breaks the format. -/
def SyntaxFault.message : SyntaxFault → List Char
  | sectionInsideCase => "assertion failed: is_first_line".toList
  | unclosedSection => "assertion failed: line.ends_with(']')".toList
  | noSeparator => "Syntax error: Expected Key = Value.".toList
  | emptyValue => "assertion `left != right` failed\n  left: 0\n right: 0".toList

/-- The message of a test that gives up. Names and values stand in it as they are. -/
def TestFault.message : TestFault → List Char
  | missing name => "No attribute named \"".toList ++ name ++ ['"']
  | alreadyConsumed name => "Attribute ".toList ++ name ++ " was already consumed".toList
  | unclosedQuote value => "expected quoted string, found ".toList ++ value
  | badHex cause value => cause.message ++ " in ".toList ++ value
  | badInteger value name =>
    "Invalid integer \"".toList ++ value ++ "\" for \"".toList ++ name ++ ['"']
  | unknownAlgorithm value => "Unsupported digest algorithm: ".toList ++ value
  | other message => message

/-- The message for a run over the file called `file`. Only what concerns the file as a whole
    names it. -/
def RunFault.message (file : List Char) : RunFault → List Char
  | malformed cause => cause.message
  | abandoned cause => cause.message
  | failed => file ++ ": Test failed.".toList
  | noCases => file ++ ": No test cases.".toList

end SkeinHash.AttributeFile
