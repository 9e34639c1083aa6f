/-!
Text as files hold it: a list of bytes, usually but not necessarily UTF-8. The
operations here look at single bytes only; the reading of bytes as characters
is in `KeyScript.Text.Glyph`.
-/

namespace KeyScript

/-- A byte string. -/
abbrev Text := List UInt8

def utf8 (s : String) : Text :=
  s.toList.flatMap String.utf8EncodeChar

def newline : UInt8 := 10

namespace Text

def ofNat (n : Nat) : Text :=
  (Nat.toDigits 10 n).map fun c => c.toNat.toUInt8

def ofInt : Int → Text
  | .ofNat n => ofNat n
  | .negSucc n => utf8 "-" ++ ofNat (n + 1)

def ofSigned (n : Int) : Text :=
  if n < 0 then ofInt n else utf8 "+" ++ ofInt n

def join (sep : Text) (parts : List Text) : Text :=
  sep.intercalate parts

/-- The part before the first `sep`, and what follows that `sep` if there is one. -/
def cut (sep : UInt8) (t : Text) : Text × Option Text :=
  (t.takeWhile (· != sep), (t.dropWhile (· != sep)).tail?)

/-- Splits at every element that satisfies `p`; `parts` and `part` are what has been
read so far, last element first. -/
def splitAt {α : Type} (p : α → Bool) (parts : List (List α)) (part : List α) :
    List α → List (List α)
  | [] => (part.reverse :: parts).reverse
  | a :: rest =>
    if p a then splitAt p (part.reverse :: parts) [] rest else splitAt p parts (a :: part) rest

/-- The parts between the bytes equal to `sep`; one more part than there are such bytes. -/
def split (sep : UInt8) (t : Text) : List Text :=
  splitAt (· == sep) [] [] t

def holds (needle : Text) : Text → Bool
  | [] => needle.isEmpty
  | b :: rest => needle.isPrefixOf (b :: rest) || holds needle rest

def hexDigit (n : Nat) : UInt8 :=
  if n < 10 then (48 + n).toUInt8 else (87 + n).toUInt8

def hexByte (b : UInt8) : Text :=
  [hexDigit (b.toNat / 16), hexDigit (b.toNat % 16)]

def hex (t : Text) : Text :=
  t.flatMap hexByte

/-- The lowest `width` hexadecimal digits of a number. -/
def hexNat : Nat → Nat → Text
  | 0, _ => []
  | width + 1, n => hexNat width (n / 16) ++ [hexDigit (n % 16)]

def isDigit (b : UInt8) : Bool :=
  48 ≤ b && b ≤ 57

def lowerByte (b : UInt8) : UInt8 :=
  if 65 ≤ b && b ≤ 90 then b + 32 else b

end Text

end KeyScript
