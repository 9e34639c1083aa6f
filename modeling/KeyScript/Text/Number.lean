import KeyScript.Text.Quoted

/-!
Reading integers from text. Digits are read from the left, so a number that
outgrows 64 bits is out of range even when a bad digit follows later.
-/

namespace KeyScript

inductive NumberFault where
  | syntaxFault
  | outOfRange
deriving DecidableEq, Repr

namespace NumberFault

def wording : NumberFault → Text
  | .syntaxFault => utf8 "invalid syntax"
  | .outOfRange => utf8 "value out of range"

def message (fault : NumberFault) (reader source : Text) : Text :=
  reader ++ utf8 ": parsing " ++ source.quote ++ utf8 ": " ++ fault.wording

end NumberFault

/-- The 64-bit signed integer that agrees with `n` modulo 2^64. -/
def wrap64 (n : Int) : Int :=
  n.bmod 18446744073709551616

namespace Text

def digitValue (b : UInt8) : Option Nat :=
  if isDigit b then some (b.toNat - 48)
  else
    let l := lowerByte b
    if 97 ≤ l && l ≤ 122 then some (l.toNat - 87) else none

/-- Reads digits of a base on top of the value `n`. Underscores are passed over when
`underscores` is set. -/
def readDigits (base : Nat) (underscores : Bool) (n : Nat) : Text → Except NumberFault Nat
  | [] => .ok n
  | b :: rest =>
    if underscores && b == 95 then readDigits base underscores n rest
    else
      match digitValue b with
      | none => .error .syntaxFault
      | some d =>
        if base ≤ d then .error .syntaxFault
        else
          let m := n * base + d
          if m < 18446744073709551616 then readDigits base underscores m rest
          else .error .outOfRange

inductive Neighbour where
  | start
  | digit
  | underscore
  | other
deriving DecidableEq

def underscoresApart (hexDigits : Bool) (before : Neighbour) : Text → Bool
  | [] => before != .underscore
  | b :: rest =>
    let l := lowerByte b
    if isDigit b || (hexDigits && 97 ≤ l && l ≤ 102) then underscoresApart hexDigits .digit rest
    else if b == 95 then
      before == .digit && underscoresApart hexDigits .underscore rest
    else before != .underscore && underscoresApart hexDigits .other rest

def dropSign : Text → Text
  | b :: rest => if b == 43 || b == 45 then rest else b :: rest
  | [] => []

/-- Whether the underscores of a number stand between digits; the mark of a base counts as a
digit. -/
def underscoresFit (t : Text) : Bool :=
  match dropSign t with
  | a :: b :: rest =>
    let l := lowerByte b
    if a == 48 && (l == 98 || l == 111 || l == 120) then underscoresApart (l == 120) .digit rest
    else underscoresApart false .start (a :: b :: rest)
  | t => underscoresApart false .start t

/-- The base a leading zero announces, and the digits that follow its mark. -/
def splitBase : Text → Nat × Text
  | 48 :: mark :: digit :: rest =>
    let l := lowerByte mark
    if l == 98 then (2, digit :: rest)
    else if l == 111 then (8, digit :: rest)
    else if l == 120 then (16, digit :: rest)
    else (8, mark :: digit :: rest)
  | 48 :: rest => (8, rest)
  | t => (10, t)

def readNatIn (base : Nat) (t : Text) : Except NumberFault Nat :=
  if t.isEmpty then .error .syntaxFault else readDigits base false 0 t

/-- A natural number below 2^64 whose base is announced by its first digits, decimal when it has
no leading zero; underscores may stand between digits. -/
def readNat (t : Text) : Except NumberFault Nat :=
  if t.isEmpty then .error .syntaxFault
  else
    let (base, digits) := splitBase t
    match readDigits base true 0 digits with
    | .error fault => .error fault
    | .ok n => if digits.contains 95 && !underscoresFit t then .error .syntaxFault else .ok n

def readSigned (digits : Text → Except NumberFault Nat) (t : Text) : Except NumberFault Int :=
  let negative := t.head? == some 45
  match digits (dropSign t) with
  | .error fault => .error fault
  | .ok n =>
    if negative then
      if n ≤ 9223372036854775808 then .ok (-(n : Int)) else .error .outOfRange
    else if n < 9223372036854775808 then .ok n else .error .outOfRange

def readIntIn (base : Nat) (t : Text) : Except NumberFault Int :=
  readSigned (readNatIn base) t

def readInt (t : Text) : Except NumberFault Int :=
  readSigned readNat t

def readDecimal (t : Text) : Except NumberFault Int :=
  readIntIn 10 t

end Text

end KeyScript
