import KeyScript.Text.Glyph

/-!
White space: the characters with the Unicode property White_Space. A text can
be trimmed of it at both ends, and split at it into fields.
-/

namespace KeyScript

/-- The characters with the property White_Space. -/
def isBlankChar (c : Char) : Bool :=
  let n := c.toNat
  (9 ≤ n && n ≤ 13) || n == 0x20 || n == 0x85 || n == 0xA0 || n == 0x1680 ||
    (0x2000 ≤ n && n ≤ 0x200A) || n == 0x2028 || n == 0x2029 || n == 0x202F ||
    n == 0x205F || n == 0x3000

/-- A stray byte is never white space. -/
def Glyph.isBlank : Glyph → Bool
  | .char c => isBlankChar c
  | .stray _ => false

namespace Text

def dropEndWhile {α : Type} (p : α → Bool) (l : List α) : List α :=
  (l.reverse.dropWhile p).reverse

def trim (t : Text) : Text :=
  ofGlyphs (dropEndWhile Glyph.isBlank (t.glyphs.dropWhile Glyph.isBlank))

def fields (t : Text) : List Text :=
  ((splitAt Glyph.isBlank [] [] t.glyphs).filter fun part => !part.isEmpty).map ofGlyphs

end Text

end KeyScript
