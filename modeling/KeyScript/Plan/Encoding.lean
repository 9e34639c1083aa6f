import KeyScript.Cbor.Write
import KeyScript.Plan.Basic

/-!
The binary form of a plan: a map with the version and the steps, each step a map
from small numbers to its fields. The source is left out, so that a script has
the same form wherever it lies. Reading accepts every spelling of such a map,
skips what it does not know and takes zero for what is missing.
-/

namespace KeyScript

open Cbor

def planVersion : Nat := 1

namespace Step

/-- The fields of a step with their numbers; most fields are left out when they are zero. -/
def fields (s : Step) : List (Nat × Text) :=
  [(1, writeInt s.line), (2, writeText s.verb), (3, writeText s.raw)] ++
    (if s.text.isEmpty then [] else [(4, writeText s.text)]) ++
    (if s.millis = 0 then [] else [(5, writeInt s.millis)]) ++
    (if s.count = 0 then [] else [(6, writeInt s.count)]) ++
    (if s.keys.isEmpty then [] else [(7, writeArray (s.keys.map writeText))]) ++
    [(8, writeInt s.target)] ++
    (if s.skipsDelay then [(9, writeTrue)] else [])

def encode (s : Step) : Text :=
  writeMap s.fields

end Step

def Plan.encode (p : Plan) : Text :=
  writeMap [(1, writeInt planVersion), (2, writeArray (p.steps.map Step.encode))]

namespace Cbor.Item

def tagFits (n : Nat) (content : Item) : Bool :=
  match n, content with
  | 0, .text _ => true
  | 1, .unsigned _ | 1, .negative _ | 1, .float _ => true
  | 2, .bytes _ | 3, .bytes _ => true
  | n, _ => 3 < n

/-- The item inside its tags; only the tags of large numbers are kept. -/
def untagged : Item → Option Item
  | .tag n content =>
    if !tagFits n content then none
    else if n = 2 ∨ n = 3 then some (.tag n content)
    else untagged content
  | item => some item

/-- The numbers of null and undefined, which stand for the zero of any field. -/
def isAbsent (n : Nat) : Bool :=
  n == 22 || n == 23

def toInt? (low high : Int) (item : Item) : Option Int :=
  let inRange (n : Int) : Option Int := if low ≤ n ∧ n ≤ high then some n else none
  match item.untagged with
  | some (.unsigned n) => inRange n
  | some (.negative n) => inRange (-1 - n)
  | some (.tag 2 (.bytes chunks)) => inRange (natOfBytes chunks.flatten)
  | some (.tag 3 (.bytes chunks)) => inRange (-1 - natOfBytes chunks.flatten)
  | some (.simple n) =>
    if n = 20 ∨ n = 21 then none else if isAbsent n then some 0 else inRange n
  | _ => none

def toInt64? (item : Item) : Option Int :=
  item.toInt? (-9223372036854775808) 9223372036854775807

/-- A text each of whose chunks is well-formed UTF-8. -/
def toText? (item : Item) : Option Text :=
  match item.untagged with
  | some (.text chunks) => if chunks.all Text.isValid then some chunks.flatten else none
  | some (.simple n) => if isAbsent n then some [] else none
  | _ => none

def toBool? (item : Item) : Option Bool :=
  match item.untagged with
  | some (.simple n) =>
    if n = 21 then some true else if n = 20 ∨ isAbsent n then some false else none
  | _ => none

def toList? {α : Type} (read : Item → Option α) (item : Item) : Option (List α) :=
  match item.untagged with
  | some (.array items) => items.mapM read
  | some (.simple n) => if isAbsent n then some [] else none
  | _ => none

end Cbor.Item

inductive FieldKey where
  | number (n : Int)
  | name (t : Text)
deriving DecidableEq, Repr

namespace FieldKey

def ofItem? : Item → Option FieldKey
  | .unsigned n => some (.number n)
  | .negative n => if n ≤ 9223372036854775807 then some (.number (-1 - n)) else none
  | .text chunks => if chunks.all Text.isValid then some (.name chunks.flatten) else none
  | _ => none

def isField (n : Nat) (key : FieldKey) : Bool :=
  key == .number n || key == .name (Text.ofNat n)

end FieldKey

def entriesOf (item : Item) : Option (List (FieldKey × Item)) :=
  match item.untagged with
  | some (.map entries) =>
    entries.mapM fun (key, value) => (FieldKey.ofItem? key).map fun key => (key, value)
  | some (.simple n) => if Item.isAbsent n then some [] else none
  | _ => none

/-- The field with a number, read by `read`; the first entry counts, and a missing one is
`zero`. -/
def fieldOf {α : Type} (entries : List (FieldKey × Item)) (n : Nat) (read : Item → Option α)
    (zero : α) : Option α :=
  match entries.find? fun e => e.1.isField n with
  | some e => read e.2
  | none => some zero

def Step.ofItem? (item : Item) : Option Step := do
  let entries ← entriesOf item
  let line ← fieldOf entries 1 Item.toInt64? 0
  let verb ← fieldOf entries 2 Item.toText? []
  let raw ← fieldOf entries 3 Item.toText? []
  let text ← fieldOf entries 4 Item.toText? []
  let millis ← fieldOf entries 5 Item.toInt64? 0
  let count ← fieldOf entries 6 Item.toInt64? 0
  let keys ← fieldOf entries 7 (Item.toList? Item.toText?) []
  let target ← fieldOf entries 8 Item.toInt64? 0
  let skipsDelay ← fieldOf entries 9 Item.toBool? false
  return ⟨line, verb, raw, text, millis, count, keys, target, skipsDelay⟩

inductive DecodeFault where
  | malformed
  | version (found : Int)
deriving DecidableEq, Repr

def DecodeFault.message : DecodeFault → Text
  | .malformed => utf8 "decoding plan: malformed data"
  | .version found =>
    utf8 "decoding plan: unsupported version " ++ Text.ofInt found ++ utf8 " (want " ++
      Text.ofNat planVersion ++ utf8 ")"

def Plan.partsOfItem? (item : Item) : Option (Int × List Step) := do
  let entries ← entriesOf item
  let version ← fieldOf entries 1 (Item.toInt? 0 255) 0
  let steps ← fieldOf entries 2 (Item.toList? Step.ofItem?) []
  return (version, steps)

def Plan.decode (t : Text) : Except DecodeFault Plan :=
  match (Item.read t).bind partsOfItem? with
  | none => .error .malformed
  | some (version, steps) =>
    if version = planVersion then .ok { steps := steps } else .error (.version version)

end KeyScript
