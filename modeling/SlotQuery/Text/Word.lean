import SlotQuery.Text.Case
import SlotQuery.Text.WordTable

/-!
# Word characters

Letters, digits and word characters of every script. A word character is an alphabetic character, a
mark, a decimal digit, a connector such as `_` or a joiner.
-/

namespace SlotQuery.Text

/-- A decimal digit of any script. -/
def isDigit (c : Char) : Bool :=
  if c.toNat < 0x80 then c.isDigit else inRanges digitRanges c

/-- A character with the property Alphabetic. -/
def isLetter (c : Char) : Bool :=
  if c.toNat < 0x80 then c.isAlpha else inRanges alphabeticRanges c

/-- A character that a word is made of. -/
def isWord (c : Char) : Bool :=
  if c.toNat < 0x80 then c.isAlphanum || c == '_'
  else inRanges alphabeticRanges c || inRanges wordExtraRanges c

/-- A letter or a number of any script. -/
def isLetterOrNumber (c : Char) : Bool :=
  if c.toNat < 0x80 then c.isAlphanum
  else inRanges alphabeticRanges c || inRanges digitRanges c || inRanges numberRanges c

end SlotQuery.Text
