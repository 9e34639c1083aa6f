import KeyScript.Text.Printable

/-!
Quoted text: a text between quotes with every glyph that cannot be shown as it
is written as an escape, so that the quoted form has one line, is always
well-formed UTF-8 and determines the text.
-/

namespace KeyScript

def shortEscape (c : Char) : Option Char :=
  match c.toNat with
  | 7 => some 'a'
  | 8 => some 'b'
  | 9 => some 't'
  | 10 => some 'n'
  | 11 => some 'v'
  | 12 => some 'f'
  | 13 => some 'r'
  | _ => none

/-- A character inside quotes of the given kind: the quote and the backslash take a backslash, a
character that is not printable takes its shortest escape. -/
def escapeChar (quote c : Char) : Text :=
  if c == quote || c == '\\' then utf8 "\\" ++ String.utf8EncodeChar c
  else if isPrintable c then String.utf8EncodeChar c
  else
    match shortEscape c with
    | some letter => utf8 "\\" ++ String.utf8EncodeChar letter
    | none =>
      let n := c.toNat
      if n < 0x80 then utf8 "\\x" ++ Text.hexNat 2 n
      else if n < 0x10000 then utf8 "\\u" ++ Text.hexNat 4 n
      else utf8 "\\U" ++ Text.hexNat 8 n

/-- A glyph inside quotes; a stray byte is written in hexadecimal. -/
def Glyph.escape (quote : Char) : Glyph → Text
  | .char c => escapeChar quote c
  | .stray b => utf8 "\\x" ++ Text.hexByte b

def quoteChar (c : Char) : Text :=
  utf8 "'" ++ escapeChar '\'' c ++ utf8 "'"

namespace Text

def quote (t : Text) : Text :=
  utf8 "\"" ++ t.glyphs.flatMap (Glyph.escape '"') ++ utf8 "\""

end Text

end KeyScript
