import KeyScript.Text.Basic

/-!
Version numbers: up to three numbers, and for a full number of three an optional
pre-release and build. The letter in front may be left out.
-/

namespace KeyScript
namespace Version

/-- The part of a version behind its number, at a dot, a hyphen or a plus. -/
abbrev Rest := Text

def number (t : Text) : Option (Text × Rest) :=
  let digits := t.takeWhile Text.isDigit
  if digits.isEmpty || (1 < digits.length && digits.head? == some 48) then none
  else some (digits, t.dropWhile Text.isDigit)

def isIdentChar (b : UInt8) : Bool :=
  Text.isDigit b || (65 ≤ b && b ≤ 90) || (97 ≤ b && b ≤ 122) || b == 45

/-- A number with a leading zero, which no pre-release may hold. -/
def isBadNumber (part : Text) : Bool :=
  part.all Text.isDigit && 1 < part.length && part.head? == some 48

/-- The identifiers of a pre-release up to a plus, separated by dots, and what follows them. -/
def prerelease (t : Text) : Option Rest :=
  let body := t.takeWhile (· != 43)
  let parts := Text.split 46 body
  if parts.all fun p => !p.isEmpty && p.all isIdentChar && !isBadNumber p then
    some (t.dropWhile (· != 43))
  else none

def isBuild (t : Text) : Bool :=
  (Text.split 46 t).all fun p => !p.isEmpty && p.all isIdentChar

def isSuffix (t : Text) : Bool :=
  match t with
  | [] => true
  | 45 :: rest =>
    match prerelease rest with
    | none => false
    | some [] => true
    | some (_ :: build) => isBuild build
  | 43 :: build => isBuild build
  | _ => false

def body (t : Text) : Text :=
  match t with
  | 118 :: rest => rest
  | t => t

def major? (t : Text) : Option Text :=
  match number (body t) with
  | none => none
  | some (first, []) => some first
  | some (first, 46 :: rest) =>
    match number rest with
    | none => none
    | some (_, []) => some first
    | some (_, 46 :: rest) =>
      match number rest with
      | none => none
      | some (_, suffix) => if isSuffix suffix then some first else none
    | some _ => none
  | some _ => none

end Version
end KeyScript
