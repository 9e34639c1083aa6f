import KeyScript.Yaml.Value

/-!
Values as plain data: texts, finite numbers, truth values, nothing, lists, and
mappings from names. Integers and times are names as they are shown. Not every
value can be written so; faults are looked for in the order of writing, the keys
of a mapping first and then its values in the order of their names.
-/

namespace KeyScript
namespace Yaml

/-- A text of plain data: bytes that are no characters are replaced. -/
def plainText (t : Text) : Text :=
  Text.ofChars t.chars

def Atom.name? : Atom → Option Text
  | .text t => some (plainText t)
  | .int n => some (Text.ofInt n)
  | .time t => t.text?
  | _ => none

inductive DataFault where
  /-- A number that is not finite, as it is shown. -/
  | notFinite (shown : Text)
  /-- A key that is no name. -/
  | notName
  /-- A time in a zone that has no form. -/
  | zone
  /-- Too many collections in one another. -/
  | depth
deriving DecidableEq, Repr

def Atom.dataFault? : Atom → Option DataFault
  | .special shown => some (.notFinite shown)
  | .time t => if t.text?.isSome then none else some .zone
  | _ => none

def Atom.keyFault? : Atom → Option DataFault
  | .time t => (Atom.time t).dataFault?
  | a => if a.name?.isSome then none else some .notName

def maxDataDepth : Nat := 10000

def leastFault (faults : List (Text × DataFault)) : Option DataFault :=
  ((faults.mergeSort fun a b => a.1 ≤ b.1).head?).map (·.2)

mutual

def Value.dataFault? (depth : Nat) : Value → Option DataFault
  | .atom a => a.dataFault?
  | .list items => if maxDataDepth ≤ depth then some .depth else listFault? (depth + 1) items
  | .map entries _ =>
    if maxDataDepth ≤ depth then some .depth
    else
      (entries.findSome? fun e => e.1.keyFault?).or (leastFault (entryFaults (depth + 1) entries))

def Value.listFault? (depth : Nat) : List Value → Option DataFault
  | [] => none
  | v :: rest => (v.dataFault? depth).or (listFault? depth rest)

def Value.entryFaults (depth : Nat) : List (Atom × Value) → List (Text × DataFault)
  | [] => []
  | e :: rest => (entryFault? depth e).toList ++ entryFaults depth rest

def Value.entryFault? (depth : Nat) : Atom × Value → Option (Text × DataFault)
  | (key, v) => (v.dataFault? depth).map fun fault => (key.name?.getD [], fault)

end

def Value.typeName : Value → Text
  | .atom .null => utf8 "null"
  | .atom (.bool _) => utf8 "boolean"
  | .atom (.int _) | .atom (.float ..) | .atom (.special _) => utf8 "number"
  | .atom (.time _) | .atom (.text _) => utf8 "string"
  | .list _ => utf8 "array"
  | .map .. => utf8 "object"

def Value.text? : Value → Option Text
  | .atom (.text t) => some (plainText t)
  | .atom (.time t) => t.text?
  | _ => none

def Value.bool? : Value → Option Bool
  | .atom (.bool b) => some b
  | _ => none

/-- The integer that a value is. A number without a fraction is an integer however it is
written. -/
def Value.int? : Value → Option Int
  | .atom (.int n) => some n
  | .atom (.float negative x) =>
    if x.isWhole then some (if negative then -(x.floor : Int) else x.floor) else none
  | _ => none

def Value.numberText : Value → Text
  | .atom (.int n) => Text.ofInt n
  | .atom (.float negative x) =>
    (if negative then utf8 "-" else []) ++ Binary64.wholeText x.floor
  | _ => []

end Yaml
end KeyScript
