import KeyScript.Text.Number

/-!
Numbers in the binary format of 64 bits, as exact values: a mantissa of at most
53 bits times a power of two. Rounding goes to the nearest such number, ties to
the even mantissa. A number is written with the fewest digits that read back as
the same number.
-/

namespace KeyScript

/-- The number `mantissa * 2 ^ exponent`, not negative. -/
structure Binary64 where
  mantissa : Nat
  exponent : Int
deriving DecidableEq, Repr

namespace Binary64

def minExponent : Int := -1074

def maxExponent : Int := 971

def zero : Binary64 := ⟨0, minExponent⟩

def fraction (x : Binary64) : Nat × Nat :=
  (x.mantissa * Nat.pow 2 x.exponent.toNat, Nat.pow 2 (-x.exponent).toNat)

/-- A quotient rounded to the nearest natural number, ties to the even one. -/
def roundQuotient (num den : Nat) : Nat :=
  let q := num / den
  let twice := 2 * (num % den)
  if twice < den || (twice == den && q % 2 == 0) then q else q + 1

def scaled (num den : Nat) (exponent : Int) : Nat :=
  roundQuotient (num * Nat.pow 2 (-exponent).toNat) (den * Nat.pow 2 exponent.toNat)

/-- The power of two by which a positive fraction is divided to get a mantissa of 53 bits. -/
def exponentFor (num den : Nat) : Int :=
  let guess : Int := (num.log2 : Int) - den.log2 - 52
  let fits := Nat.pow 2 52 * den * Nat.pow 2 guess.toNat ≤ num * Nat.pow 2 (-guess).toNat
  max minExponent (if fits then guess else guess - 1)

def nearest (num den : Nat) : Option Binary64 :=
  if num = 0 then some zero
  else
    let exponent := exponentFor num den
    let mantissa := scaled num den exponent
    let rounded : Binary64 :=
      if mantissa = Nat.pow 2 53 then ⟨Nat.pow 2 52, exponent + 1⟩ else ⟨mantissa, exponent⟩
    if rounded.mantissa = 0 then some zero
    else if maxExponent < rounded.exponent then none
    else some rounded

/-- The number nearest to `digits * 10 ^ exponent`. Far outside the range of the format the power is
not computed. -/
def ofDecimal (digits : Nat) (exponent : Int) : Option Binary64 :=
  let size : Int := exponent + (Nat.toDigits 10 digits).length
  if digits = 0 ∨ size < -330 then some zero
  else if 310 < size then none
  else nearest (digits * Nat.pow 10 exponent.toNat) (Nat.pow 10 (-exponent).toNat)

def ofNat (n : Nat) : Option Binary64 := nearest n 1

def mul (a b : Binary64) : Option Binary64 :=
  nearest (a.fraction.1 * b.fraction.1) (a.fraction.2 * b.fraction.2)

def div (a b : Binary64) : Option Binary64 :=
  nearest (a.fraction.1 * b.fraction.2) (a.fraction.2 * b.fraction.1)

def floor (x : Binary64) : Nat :=
  x.fraction.1 / x.fraction.2

def isWhole (x : Binary64) : Bool :=
  x.fraction.1 % x.fraction.2 == 0

/-- The two decimals with `places` digits less than the whole number `n` on either side of it, the
nearer first; each is a count of `10 ^ places`. -/
def neighbours (n places : Nat) : List Nat :=
  let below := n / Nat.pow 10 places
  if 2 * (n % Nat.pow 10 places) ≤ Nat.pow 10 places then [below, below + 1] else [below + 1, below]

/-- The decimal with the fewest digits that reads as the same number as the whole number `n`:
digits and the zeros behind them. Decimals with more zeros are tried first. -/
def shortestFrom (n : Nat) : Nat → Nat × Nat
  | 0 => (n, 0)
  | places + 1 =>
    match (neighbours n (places + 1)).find? fun digits =>
        ofDecimal digits (places + 1) == nearest n 1 with
    | some digits => (digits, places + 1)
    | none => shortestFrom n places

def shortest (n : Nat) : Nat × Nat :=
  shortestFrom n ((Nat.toDigits 10 n).length - 1)

def dropZeros (digits : Text) : Text :=
  (digits.reverse.dropWhile (· == 48)).reverse

/-- A whole number as it is written in data: in full below 10^21, else with an exponent. -/
def wholeText (n : Nat) : Text :=
  let (digits, zeros) := shortest n
  let text := Text.ofNat digits
  if n < Nat.pow 10 21 then text ++ List.replicate zeros 48
  else
    let rest := dropZeros (text.drop 1)
    text.take 1 ++ (if rest.isEmpty then [] else utf8 "." ++ rest) ++ utf8 "e+" ++
      Text.ofNat (zeros + text.length - 1)

end Binary64

structure DecimalText where
  negative : Bool
  digits : Nat
  exponent : Int
deriving DecidableEq, Repr

namespace DecimalText

/-- Reads digits, passing over underscores: the value on top of `n`, how many there were, and the
rest. -/
def readDigits (n count : Nat) : Text → Nat × Nat × Text
  | [] => (n, count, [])
  | b :: rest =>
    if b == 95 then readDigits n count rest
    else if Text.isDigit b then readDigits (n * 10 + (b.toNat - 48)) (count + 1) rest
    else (n, count, b :: rest)

/-- The value of an exponent on top of `n`. Only five digits count, from the first that is not
zero on. -/
def exponentValue (n : Nat) : Text → Nat
  | [] => n
  | b :: rest =>
    if b == 95 then exponentValue n rest
    else if 10000 ≤ n then n
    else exponentValue (n * 10 + (b.toNat - 48)) rest

def readExponent : Text → Option Int
  | [] => some 0
  | mark :: rest =>
    if Text.lowerByte mark != 101 then none
    else
      let negative := rest.head? == some 45
      let digits := Text.dropSign rest
      if digits.all (fun b => b == 95 || Text.isDigit b) && digits.any Text.isDigit then
        let n := exponentValue 0 digits
        some (if negative then -(n : Int) else n)
      else none

def read (t : Text) : Option DecimalText :=
  if !Text.underscoresFit t then none
  else
    let (whole, before, rest) := readDigits 0 0 (Text.dropSign t)
    let (digits, after, rest) :=
      match rest with
      | 46 :: rest => readDigits whole 0 rest
      | rest => (whole, 0, rest)
    if before + after = 0 then none
    else
      match readExponent rest with
      | some e => some ⟨t.head? == some 45, digits, e - after⟩
      | none => none

end DecimalText
end KeyScript
