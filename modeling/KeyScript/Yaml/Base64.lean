import KeyScript.Text.Basic

/-!
Bytes written as base64: four characters for three bytes, filled up with equals
signs at the end. Line breaks are ignored.
-/

namespace KeyScript
namespace Base64

def sextet (b : UInt8) : Option Nat :=
  if 65 ≤ b && b ≤ 90 then some (b.toNat - 65)
  else if 97 ≤ b && b ≤ 122 then some (b.toNat - 71)
  else if Text.isDigit b then some (b.toNat + 4)
  else if b == 43 then some 62
  else if b == 47 then some 63
  else none

/-- Decodes groups of four characters; only the last group may be filled up. -/
def decodeGroups (found : Array UInt8) : Text → Option Text
  | [] => some found.toList
  | a :: b :: c :: d :: rest =>
    match sextet a, sextet b with
    | some x, some y =>
      let first := (x * 4 + y / 16).toUInt8
      if c == 61 then
        if d == 61 && rest.isEmpty then some (found.push first).toList else none
      else
        match sextet c with
        | none => none
        | some z =>
          let second := (y % 16 * 16 + z / 4).toUInt8
          if d == 61 then
            if rest.isEmpty then some ((found.push first).push second).toList else none
          else
            match sextet d with
            | none => none
            | some w =>
              let third := (z % 4 * 64 + w).toUInt8
              decodeGroups (((found.push first).push second).push third) rest
    | _, _ => none
  | _ => none

def decode (t : Text) : Option Text :=
  decodeGroups #[] (t.filter fun b => b != 10 && b != 13)

end Base64
end KeyScript
