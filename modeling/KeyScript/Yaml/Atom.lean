import KeyScript.Number.Binary64
import KeyScript.Yaml.Timestamp

/-!
The values of scalars. The text of a plain scalar decides its type, by its first
character and its form; a tag can ask for a type, and then the text must have
that form.
-/

namespace KeyScript
namespace Yaml

inductive Atom where
  | null
  | bool (b : Bool)
  | int (n : Int)
  | float (negative : Bool) (x : Binary64)
  /-- Infinite, or not a number: how it is shown. -/
  | special (shown : Text)
  | time (t : Timestamp)
  | text (t : Text)
deriving DecidableEq, Repr

namespace Tags

def null : Text := utf8 "!!null"
def bool : Text := utf8 "!!bool"
def int : Text := utf8 "!!int"
def float : Text := utf8 "!!float"
def timestamp : Text := utf8 "!!timestamp"
def str : Text := utf8 "!!str"
def binary : Text := utf8 "!!binary"
def merge : Text := utf8 "!!merge"
def map : Text := utf8 "!!map"
def seq : Text := utf8 "!!seq"

/-- What the tags with two exclamation marks are short for. -/
def longForm : Text := utf8 "tag:yaml.org,2002:"

def short (tag : Text) : Text :=
  if longForm.isPrefixOf tag then utf8 "!!" ++ tag.drop longForm.length else tag

def typed : List Text :=
  [[], str, bool, int, float, null, timestamp]

end Tags

namespace Atom

def notANumber : Text := utf8 "NaN"

def words : List (Text × Text × Atom) :=
  (["true", "True", "TRUE"].map fun w => (utf8 w, Tags.bool, .bool true)) ++
  (["false", "False", "FALSE"].map fun w => (utf8 w, Tags.bool, .bool false)) ++
  (["", "~", "null", "Null", "NULL"].map fun w => (utf8 w, Tags.null, .null)) ++
  ([".nan", ".NaN", ".NAN"].map fun w => (utf8 w, Tags.float, .special notANumber)) ++
  ([".inf", ".Inf", ".INF", "+.inf", "+.Inf", "+.INF"].map fun w =>
    (utf8 w, Tags.float, .special (utf8 "+Inf"))) ++
  (["-.inf", "-.Inf", "-.INF"].map fun w => (utf8 w, Tags.float, .special (utf8 "-Inf")))

def readFloat (t : Text) : Option Atom :=
  match DecimalText.read t with
  | none => none
  | some d => (Binary64.ofDecimal d.digits d.exponent).map (.float d.negative)

def readInt (signed unsigned : Except NumberFault Int) : Option Atom :=
  match signed, unsigned with
  | .ok n, _ => some (.int n)
  | _, .ok n => some (.int n)
  | _, _ => none

/-- An integer behind a mark of its base, where a second sign may stand. -/
def readMarked (base : Nat) (mark : Text) (t : Text) : Option Atom :=
  if mark.isPrefixOf t then
    let digits := t.drop mark.length
    readInt (Text.readIntIn base digits) ((Text.readNatIn base digits).map Int.ofNat)
  else if (45 :: mark).isPrefixOf t then
    match Text.readIntIn base (45 :: t.drop (mark.length + 1)) with
    | .ok n => some (.int n)
    | .error _ => none
  else none

def readNumber (t : Text) : Option (Text × Atom) :=
  let plain := t.filter (· != 95)
  match readInt (Text.readInt plain) ((Text.readNat plain).map Int.ofNat) with
  | some n => some (Tags.int, n)
  | none =>
    match readFloat plain with
    | some x => some (Tags.float, x)
    | none =>
      match readMarked 2 (utf8 "0b") plain with
      | some n => some (Tags.int, n)
      | none => (readMarked 8 (utf8 "0o") plain).map fun n => (Tags.int, n)

/-- The tag and the value that the form of a text gives; `tag` is the one asked for. -/
def ofForm (tag text : Text) : Text × Atom :=
  let asText := (Tags.str, Atom.text text)
  if tag = Tags.str then asText
  else
    match text with
    | [] => (Tags.null, .null)
    | first :: _ =>
      let numeric := Text.isDigit first || first == 43 || first == 45
      let special := first == 46
      let letter := (utf8 "yYnNtTfFoO~").contains first
      if !(numeric || special || letter) then asText
      else
        match words.lookup text with
        | some found => found
        | none =>
          if special then
            match readFloat text with
            | some x => (Tags.float, x)
            | none => asText
          else if numeric then
            let time :=
              if tag = [] ∨ tag = Tags.timestamp then Timestamp.read text else none
            match time with
            | some t => (Tags.timestamp, .time t)
            | none => (readNumber text).getD asText
          else asText

def toFloat : Atom → Option Atom
  | .int n =>
    if n < 9223372036854775808 then
      (Binary64.ofNat n.natAbs).map (.float (n < 0))
    else none
  | _ => none

/-- The tag and the value of a text under a tag; `none` when the text does not have the form that
the tag asks for. A tag of no known type leaves the text as it is. -/
def resolve (tag text : Text) : Option (Text × Atom) :=
  let tag := Tags.short tag
  if !Tags.typed.contains tag then some (tag, .text text)
  else
    let (found, atom) := ofForm tag text
    if tag = [] ∨ tag = found ∨ tag = Tags.str then some (found, atom)
    else if tag = Tags.float ∧ found = Tags.int then
      atom.toFloat.map fun x => (Tags.float, x)
    else none

/-- Whether two keys name the same entry. Zero has no sign here. What is not a number, and a time in
a zone away from the common time, is the same as no other key. -/
def sameKey (a b : Atom) : Bool :=
  match a, b with
  | .time t, _ => t.minutesAway == 0 && a == b
  | .special shown, _ => shown != notANumber && a == b
  | .float negative x, .float otherNegative y =>
    x == y && (negative == otherNegative || x.mantissa == 0)
  | _, _ => a == b

end Atom
end Yaml
end KeyScript
