import KeyScript.Number.Binary64
import KeyScript.Keyboard.Action

/-!
Lengths of time as people write them: numbers with units, such as `1.5s` or
`2h45m`, and an optional sign in front. Whole parts are exact; a fraction is
taken to the accuracy of a 64-bit binary number.
-/

namespace KeyScript

inductive DurationFault where
  | invalid
  | missingUnit
  | unknownUnit (unit : Text)
deriving DecidableEq, Repr

def asciiQuote (t : Text) : Text :=
  utf8 "\"" ++ (t.flatMap fun b =>
    if b == 34 || b == 92 then [92, b]
    else if b < 32 || 128 ≤ b then utf8 "\\x" ++ Text.hexByte b
    else [b]) ++ utf8 "\""

def DurationFault.message (source : Text) : DurationFault → Text
  | .invalid => utf8 "time: invalid duration " ++ asciiQuote source
  | .missingUnit => utf8 "time: missing unit in duration " ++ asciiQuote source
  | .unknownUnit unit =>
    utf8 "time: unknown unit " ++ asciiQuote unit ++ utf8 " in duration " ++ asciiQuote source

namespace Duration

/-- The units with their lengths in nanoseconds; there are two signs for micro. -/
def units : List (Text × Nat) :=
  [(utf8 "ns", 1), (utf8 "us", 1000), (utf8 "µs", 1000), (utf8 "μs", 1000),
   (utf8 "ms", 1000000), (utf8 "s", 1000000000), (utf8 "m", 60000000000),
   (utf8 "h", 3600000000000)]

def bound : Nat := 9223372036854775808

def readWhole (n : Nat) : Text → Option (Nat × Text)
  | [] => some (n, [])
  | b :: rest =>
    if !Text.isDigit b then some (n, b :: rest)
    else if bound / 10 < n then none
    else
      let m := n * 10 + (b.toNat - 48)
      if bound < m then none else readWhole m rest

/-- Reads a fraction on top of `n / scale`. Digits past the accuracy of 63 bits are passed over. -/
def readFraction (n : Nat) (scale : Option Binary64) (full : Bool) :
    Text → Nat × Option Binary64 × Text
  | [] => (n, scale, [])
  | b :: rest =>
    if !Text.isDigit b then (n, scale, b :: rest)
    else if full || (bound - 1) / 10 < n then readFraction n scale true rest
    else
      let m := n * 10 + (b.toNat - 48)
      if bound < m then readFraction n scale true rest
      else
        readFraction m (scale.bind fun s => (Binary64.ofNat 10).bind s.mul) false rest

/-- The nanoseconds of the fraction `n / scale` of a unit; a scale too large to compute leaves
nothing. -/
def fractionOf (n : Nat) (scale : Option Binary64) (unit : Nat) : Nat :=
  match scale with
  | none => 0
  | some s =>
    match (Binary64.ofNat unit).bind fun u => u.div s with
    | none => 0
    | some share =>
      match (Binary64.ofNat n).bind share.mul with
      | none => 0
      | some x => x.floor

def isNumeric (b : UInt8) : Bool :=
  b == 46 || Text.isDigit b

def readPart (t : Text) : Except DurationFault (Nat × Text) :=
  if !(t.head?.any isNumeric) then .error .invalid
  else
    match readWhole 0 t with
    | none => .error .invalid
    | some (whole, rest) =>
      let before := rest.length != t.length
      let (fraction, scale, rest, after) :=
        match rest with
        | 46 :: rest =>
          let (fraction, scale, left) := readFraction 0 (Binary64.ofNat 1) false rest
          (fraction, scale, left, left.length != rest.length)
        | rest => (0, Binary64.ofNat 1, rest, false)
      if !before && !after then .error .invalid
      else
        let name := rest.takeWhile fun b => !isNumeric b
        let rest := rest.dropWhile fun b => !isNumeric b
        if name.isEmpty then .error .missingUnit
        else
          match units.lookup name with
          | none => .error (.unknownUnit name)
          | some unit =>
            if bound / unit < whole then .error .invalid
            else
              let n := whole * unit + (if fraction = 0 then 0 else fractionOf fraction scale unit)
              if bound < n then .error .invalid else .ok (n, rest)

/-- Adds up the parts of a text, of which there are at most `fuel`; the sum is taken in 64
bits. -/
def readParts : Nat → Nat → Text → Except DurationFault Nat
  | _, total, [] => .ok total
  | 0, _, _ => .error .invalid
  | fuel + 1, total, t =>
    match readPart t with
    | .error fault => .error fault
    | .ok (n, rest) =>
      let sum := (total + n) % 18446744073709551616
      if bound < sum then .error .invalid else readParts fuel sum rest

def read (t : Text) : Except DurationFault Nanos :=
  let negative := t.head? == some 45
  let body := Text.dropSign t
  if body = utf8 "0" then .ok 0
  else if body.isEmpty then .error .invalid
  else
    match readParts body.length 0 body with
    | .error fault => .error fault
    | .ok n =>
      if negative then .ok (-(n : Int))
      else if n = bound then .error .invalid
      else .ok n

end Duration
end KeyScript
