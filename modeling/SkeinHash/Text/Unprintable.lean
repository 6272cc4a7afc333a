import SkeinHash.Text.DefaultIgnorable
import SkeinHash.Text.GraphemeExtend
import SkeinHash.Text.OtherOrSeparator

/-!
# Unprintable characters

A character is unprintable if a reader of the text could not see it on its own: by its general
category it is no visible mark, or it joins the character before it, or a display may leave it
out. The space is printable.
-/

namespace SkeinHash.Text

/-- The halfwidth katakana voice marks. They extend the kana before them, but are letters with a
    width of their own. -/
def isHalfwidthVoiceMark (c : Char) : Bool := c = '\uff9e' || c = '\uff9f'

/-- Whether a character is shown by its code point: those of the general categories Other and
    Separator, the space excepted, those that extend a grapheme, the halfwidth katakana voice
    marks excepted, and those that are ignored by default. -/
def isUnprintable (c : Char) : Bool :=
  c ≠ ' ' && otherOrSeparator.contains c ||
    graphemeExtend.contains c && !isHalfwidthVoiceMark c || defaultIgnorable.contains c

end SkeinHash.Text
