import KeyScript.Text.Glyph

/-!
The characters of a document. It is UTF-8, or UTF-16 when it starts with a byte
order mark that says so, and characters that cannot be shown are refused. A
document is decoded in pieces of a fixed number of bytes, each only when it is
needed, so a mistake shows when its piece is reached and not before.
-/

namespace KeyScript
namespace Yaml

def isAllowed (c : Char) : Bool :=
  let n := c.toNat
  n == 9 || n == 10 || n == 13 || (0x20 ≤ n && n ≤ 0x7E) || n == 0x85 ||
    (0xA0 ≤ n && n ≤ 0xD7FF) || (0xE000 ≤ n && n ≤ 0xFFFD) || 0x10000 ≤ n

def pieceSize : Nat := 512

/-- A character as it is written: how many bytes it takes, and what it is unless it is refused. -/
structure Written where
  width : Nat
  char : Option Char
deriving DecidableEq, Repr

namespace Written

def of (width : Nat) (c : Char) : Written :=
  ⟨width, if isAllowed c then some c else none⟩

/-- A character that the document ends in the middle of. No piece ever holds it. -/
def cutOff : Written := ⟨pieceSize + 1, none⟩

end Written

/-- How many bytes belong to the UTF-8 character that starts with a byte, 0 when none does. -/
def leadWidth (b : Nat) : Nat :=
  if b < 0x80 then 1
  else if 0xC0 ≤ b && b < 0xE0 then 2
  else if 0xE0 ≤ b && b < 0xF0 then 3
  else if 0xF0 ≤ b && b < 0xF8 then 4
  else 0

def Written.ofUtf8 (a : UInt8) (rest : Text) : Written :=
  match Glyph.read a rest with
  | (.char c, more) => .of (more + 1) c
  | (.stray _, _) =>
    let more := leadWidth a.toNat - 1
    if (rest.take more).length < more then .cutOff else ⟨more + 1, none⟩

/-- The characters of UTF-8 text up to the first that is refused; `skip` bytes still belong to the
last character found. -/
def decodeUtf8 (skip : Nat) (found : Array Written) : Text → Array Written
  | [] => found
  | a :: rest =>
    match skip with
    | skip + 1 => decodeUtf8 skip found rest
    | 0 =>
      let w := Written.ofUtf8 a rest
      if w.char.isNone then found.push w else decodeUtf8 (w.width - 1) (found.push w) rest

def unitOf (lowFirst : Bool) (a b : UInt8) : Nat :=
  if lowFirst then b.toNat * 256 + a.toNat else a.toNat * 256 + b.toNat

def isHighHalf (u : Nat) : Bool := 0xD800 ≤ u && u < 0xDC00

def isLowHalf (u : Nat) : Bool := 0xDC00 ≤ u && u < 0xE000

def decodeUtf16 (lowFirst : Bool) (found : Array Written) : Text → Array Written
  | [] => found
  | [_] => found.push .cutOff
  | a :: b :: rest =>
    let u := unitOf lowFirst a b
    if isLowHalf u then found.push ⟨2, none⟩
    else if isHighHalf u then
      match rest with
      | c :: d :: rest =>
        let v := unitOf lowFirst c d
        if isLowHalf v then
          let c := Char.ofNat (0x10000 + (u - 0xD800) * 1024 + (v - 0xDC00))
          decodeUtf16 lowFirst (found.push (.of 4 c)) rest
        else found.push ⟨4, none⟩
      | _ => found.push .cutOff
    else
      let w := Written.of 2 (Char.ofNat u)
      if w.char.isNone then found.push w else decodeUtf16 lowFirst (found.push w) rest

/-- The numbers of characters in the pieces that can be decoded, and whether one follows that
cannot; `room` bytes are left in the piece that holds `count` characters so far. -/
def pieceCounts (room count : Nat) (found : Array Nat) : List Written → Array Nat × Bool
  | [] => (found.push count, false)
  | w :: rest =>
    if w.width ≤ room then
      if w.char.isNone then (found, true)
      else pieceCounts (room - w.width) (count + 1) found rest
    else if pieceSize < w.width || w.char.isNone then (found.push count, true)
    else pieceCounts (pieceSize - w.width) 1 (found.push count) rest

structure Characters where
  /-- The characters of all pieces that can be decoded. -/
  all : List Char
  /-- How many of them each piece holds. -/
  counts : List Nat
  /-- Whether a piece follows that cannot be decoded. -/
  spoiled : Bool
deriving DecidableEq, Repr

namespace Characters

def ofWritten (room : Nat) (written : Array Written) : Characters :=
  let (counts, spoiled) := pieceCounts room 0 #[] written.toList
  let known := written.toList.filterMap Written.char
  ⟨known.take (counts.foldl (· + ·) 0), counts.toList, spoiled⟩

/-- The characters of a document, without the byte order mark in front. A document without any is
an empty line. -/
def ofText (t : Text) : Characters :=
  match t with
  | [] => ofWritten pieceSize #[⟨1, some '\n'⟩]
  | 0xFF :: 0xFE :: rest => ofWritten (pieceSize - 2) (decodeUtf16 true #[] rest)
  | 0xFE :: 0xFF :: rest => ofWritten (pieceSize - 2) (decodeUtf16 false #[] rest)
  | 0xEF :: 0xBB :: 0xBF :: rest => ofWritten (pieceSize - 3) (decodeUtf8 0 #[] rest)
  | t => ofWritten pieceSize (decodeUtf8 0 #[] t)

end Characters
end Yaml
end KeyScript
