import KeyScript.Text.Number

/-!
Dates and times among the scalars of a document: a date, or a date and a time
with a zone, or a date and a time after a space. They are shown in one form only.
-/

namespace KeyScript
namespace Yaml

structure Timestamp where
  year : Nat
  month : Nat
  day : Nat
  hour : Nat := 0
  minute : Nat := 0
  second : Nat := 0
  nanos : Nat := 0
  /-- How far the zone is from the common time, in minutes, when that is written. -/
  offset : Option Int := none
deriving DecidableEq, Repr

namespace Timestamp

def readShort : Text → Option (Nat × Text)
  | a :: b :: rest =>
    if !Text.isDigit a then none
    else if Text.isDigit b then some ((a.toNat - 48) * 10 + (b.toNat - 48), rest)
    else some (a.toNat - 48, b :: rest)
  | [a] => if Text.isDigit a then some (a.toNat - 48, []) else none
  | [] => none

def expect (b : UInt8) : Text → Option Text
  | a :: rest => if a == b then some rest else none
  | [] => none

def isLeap (year : Nat) : Bool :=
  year % 4 == 0 && (year % 100 != 0 || year % 400 == 0)

def daysIn (year month : Nat) : Nat :=
  if month = 2 then (if isLeap year then 29 else 28)
  else if month = 4 ∨ month = 6 ∨ month = 9 ∨ month = 11 then 30
  else 31

/-- The fraction of a second at the start of a text, in nanoseconds, and the rest; digits past the
ninth are dropped. -/
def readNanos (t : Text) : Nat × Text :=
  match t with
  | mark :: rest =>
    let digits := rest.takeWhile Text.isDigit
    if (mark == 46 || mark == 44) && !digits.isEmpty then
      let kept := digits.take 9
      let value := kept.foldl (fun n b => n * 10 + (b.toNat - 48)) 0
      (value * Nat.pow 10 (9 - kept.length), rest.drop digits.length)
    else (0, t)
  | [] => (0, [])

def readTime (date : Timestamp) (t : Text) : Option (Timestamp × Text) := do
  let (hour, t) ← readShort t
  let t ← expect 58 t
  let (minute, t) ← readShort t
  let t ← expect 58 t
  let (second, t) ← readShort t
  let (nanos, t) := readNanos t
  if 24 ≤ hour || 60 ≤ minute || 60 ≤ second then none
  else some ({ date with hour, minute, second, nanos }, t)

def readPair (a b : UInt8) : Option Nat :=
  if Text.isDigit a && Text.isDigit b then some ((a.toNat - 48) * 10 + (b.toNat - 48)) else none

/-- A zone at the end of a text: `Z`, or a sign, hours and minutes. -/
def readZone : Text → Option (Option Int)
  | [90] => some none
  | [sign, a, b, 58, c, d] =>
    match readPair a b, readPair c d with
    | some hours, some minutes =>
      if 24 < hours || 60 < minutes then none
      else
        let total : Int := hours * 60 + minutes
        if sign == 43 then some (some total)
        else if sign == 45 then some (some (-total))
        else none
    | _, _ => none
  | _ => none

def readDate (t : Text) : Option (Timestamp × Text) := do
  let digits := t.takeWhile Text.isDigit
  if digits.length != 4 then none
  else
    let year := digits.foldl (fun n b => n * 10 + (b.toNat - 48)) 0
    let t ← expect 45 (t.drop 4)
    let (month, t) ← readShort t
    let t ← expect 45 t
    let (day, t) ← readShort t
    if month = 0 || 12 < month || day = 0 || daysIn year month < day then none
    else some (⟨year, month, day, 0, 0, 0, 0, none⟩, t)

def read (t : Text) : Option Timestamp :=
  match readDate t with
  | none => none
  | some (date, []) => some date
  | some (date, mark :: rest) =>
    if mark == 84 || mark == 116 then
      match readTime date rest with
      | some (time, zone) => (readZone zone).map fun offset => { time with offset := offset }
      | none => none
    else if mark == 32 then
      match readTime date (rest.dropWhile (· == 32)) with
      | some (time, []) => some time
      | _ => none
    else none

def padded (width n : Nat) : Text :=
  let digits := Text.ofNat n
  List.replicate (width - digits.length) 48 ++ digits

def nanosText (nanos : Nat) : Text :=
  if nanos = 0 then []
  else utf8 "." ++ ((padded 9 nanos).reverse.dropWhile (· == 48)).reverse

def zoneText (offset : Int) : Text :=
  if offset = 0 then utf8 "Z"
  else
    let minutes := offset.natAbs
    utf8 (if offset < 0 then "-" else "+") ++ padded 2 (minutes / 60) ++ utf8 ":" ++
      padded 2 (minutes % 60)

def minutesAway (t : Timestamp) : Int :=
  t.offset.getD 0

/-- The time in full; `none` for a zone of a day or more, which has no such form. -/
def text? (t : Timestamp) : Option Text :=
  if 24 * 60 ≤ t.minutesAway.natAbs then none
  else
    some (padded 4 t.year ++ utf8 "-" ++ padded 2 t.month ++ utf8 "-" ++ padded 2 t.day ++
      utf8 "T" ++ padded 2 t.hour ++ utf8 ":" ++ padded 2 t.minute ++ utf8 ":" ++
      padded 2 t.second ++ nanosText t.nanos ++ zoneText t.minutesAway)

end Timestamp
end Yaml
end KeyScript
