import KeyScript.Text.Glyph

/-!
Case mapping of single characters, as far as it reaches ASCII. Key names,
candidate spellings and level names are all ASCII, so a character matters only
through the ASCII letter it maps to: besides the ASCII letters themselves these
are four characters.
-/

namespace KeyScript

/-- The lower-case form of a character when it is ASCII, else the character itself. The capital
dotted I and the Kelvin sign are the two characters outside ASCII with such a form. -/
def lowerChar (c : Char) : Char :=
  if 'A' ≤ c && c ≤ 'Z' then Char.ofNat (c.toNat + 32)
  else if c == '\u0130' then 'i'
  else if c == '\u212A' then 'k'
  else c

/-- The upper-case form of a character when it is ASCII, else the character itself. The dotless i
and the long s are the two characters outside ASCII with such a form. -/
def upperChar (c : Char) : Char :=
  if 'a' ≤ c && c ≤ 'z' then Char.ofNat (c.toNat - 32)
  else if c == '\u0131' then 'I'
  else if c == '\u017F' then 'S'
  else c

namespace Text

def lower (t : Text) : Text :=
  ofChars (t.chars.map lowerChar)

def upper (t : Text) : Text :=
  ofChars (t.chars.map upperChar)

end Text

end KeyScript
