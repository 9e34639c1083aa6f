import KeyScript.Text.Basic

/-!
The reading of a text as UTF-8. A text is a sequence of glyphs: characters, and
stray bytes that belong to no well-formed sequence. Nothing is lost by the
reading, so a text can be cut between glyphs and put together again.
-/

namespace KeyScript

/-- One unit of a text read as UTF-8. -/
inductive Glyph where
  | char (c : Char)
  | stray (b : UInt8)
deriving DecidableEq, Repr

namespace Glyph

def bytes : Glyph → Text
  | .char c => String.utf8EncodeChar c
  | .stray b => [b]

/-- The character shown for a glyph: a stray byte is shown as the replacement character. -/
def toChar : Glyph → Char
  | .char c => c
  | .stray _ => '\uFFFD'

def isTail (b : UInt8) : Bool :=
  0x80 ≤ b && b ≤ 0xBF

/-- A second byte that may follow the first byte of a sequence of three: neither an overlong
form nor a surrogate. -/
def secondOfThree (a b : UInt8) : Bool :=
  (a == 0xE0 && 0xA0 ≤ b && b ≤ 0xBF) || (a == 0xED && 0x80 ≤ b && b ≤ 0x9F) ||
    (0xE1 ≤ a && a ≤ 0xEF && a != 0xED && isTail b)

/-- A second byte that may follow the first byte of a sequence of four: neither an overlong
form nor a number past the last character. -/
def secondOfFour (a b : UInt8) : Bool :=
  (a == 0xF0 && 0x90 ≤ b && b ≤ 0xBF) || (a == 0xF4 && 0x80 ≤ b && b ≤ 0x8F) ||
    (0xF1 ≤ a && a ≤ 0xF3 && isTail b)

def tailBits (b : UInt8) : Nat :=
  b.toNat % 64

/-- The glyph at the start of `a :: rest`, and how many bytes of `rest` belong to it. -/
def read (a : UInt8) (rest : Text) : Glyph × Nat :=
  if a < 0x80 then (.char (Char.ofNat a.toNat), 0)
  else
    match rest with
    | b :: c :: d :: _ =>
      if 0xC2 ≤ a && a ≤ 0xDF && isTail b then
        (.char (Char.ofNat (a.toNat % 32 * 64 + tailBits b)), 1)
      else if secondOfThree a b && isTail c then
        (.char (Char.ofNat (a.toNat % 16 * 4096 + tailBits b * 64 + tailBits c)), 2)
      else if secondOfFour a b && isTail c && isTail d then
        (.char (Char.ofNat
          (a.toNat % 8 * 262144 + tailBits b * 4096 + tailBits c * 64 + tailBits d)), 3)
      else (.stray a, 0)
    | [b, c] =>
      if 0xC2 ≤ a && a ≤ 0xDF && isTail b then
        (.char (Char.ofNat (a.toNat % 32 * 64 + tailBits b)), 1)
      else if secondOfThree a b && isTail c then
        (.char (Char.ofNat (a.toNat % 16 * 4096 + tailBits b * 64 + tailBits c)), 2)
      else (.stray a, 0)
    | [b] =>
      if 0xC2 ≤ a && a ≤ 0xDF && isTail b then
        (.char (Char.ofNat (a.toNat % 32 * 64 + tailBits b)), 1)
      else (.stray a, 0)
    | [] => (.stray a, 0)

end Glyph

namespace Text

/-- Reads glyphs one byte at a time: `skip` bytes still belong to the last glyph of `found`. -/
def readGlyphs (skip : Nat) (found : Array Glyph) : Text → Array Glyph
  | [] => found
  | a :: rest =>
    match skip with
    | skip + 1 => readGlyphs skip found rest
    | 0 =>
      let (r, width) := Glyph.read a rest
      readGlyphs width (found.push r) rest

def glyphs (t : Text) : List Glyph :=
  (readGlyphs 0 #[] t).toList

def ofGlyphs (rs : List Glyph) : Text :=
  rs.flatMap Glyph.bytes

def chars (t : Text) : List Char :=
  t.glyphs.map Glyph.toChar

def ofChars (cs : List Char) : Text :=
  cs.flatMap String.utf8EncodeChar

def isValid (t : Text) : Bool :=
  t.glyphs.all fun
    | .char _ => true
    | .stray _ => false

/-- Spaces behind the text, up to a width counted in glyphs. -/
def padRight (width : Nat) (t : Text) : Text :=
  t ++ List.replicate (width - t.glyphs.length) 32

def padLeft (width : Nat) (t : Text) : Text :=
  List.replicate (width - t.glyphs.length) 32 ++ t

end Text

end KeyScript
