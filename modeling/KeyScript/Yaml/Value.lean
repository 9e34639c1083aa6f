import KeyScript.Yaml.Base64
import KeyScript.Yaml.Node

/-!
The value of a document: its nodes with aliases followed and merges carried out.
A mapping must not name a key twice. What a mapping merges gives way to its own
entries, and later merges give way to earlier ones. The work that aliases cause
is limited.
-/

namespace KeyScript
namespace Yaml

inductive Value where
  | atom (a : Atom)
  | list (items : List Value)
  /-- A mapping with one entry a key; `repeated` when a key came twice, written in two ways, and
  then the last entry counts. -/
  | map (entries : List (Atom × Value)) (repeated : Bool)
deriving Repr

namespace Node

def ownTag : Node → Text
  | .scalar tag _ | .sequence tag _ | .mapping tag _ => tag
  | .alias .. => []

/-- Whether two keys are written the same way. Collections are all alike here. -/
def sameKey : Node → Node → Bool
  | .scalar _ a, .scalar _ b => a == b
  | .sequence .., .sequence .. => true
  | .mapping .., .mapping .. => true
  | .alias _ a _, .alias _ b _ => a == b
  | _, _ => false

def hasRepeatedKey : List (Node × Node) → Bool
  | [] => false
  | (key, _) :: rest => rest.any (fun e => key.sameKey e.1) || hasRepeatedKey rest

def isMerge : Node → Bool
  | .scalar tag text => text == utf8 "<<" && tag == Tags.merge
  | _ => false

end Node

namespace Document

def tagOf (doc : Document) : Node → Text
  | .alias _ _ target => (doc.named[target]?.map Node.ownTag).getD []
  | n => n.ownTag

def hasTextKeys (doc : Document) (entries : List (Node × Node)) : Bool :=
  entries.all fun e => doc.tagOf e.1 == Tags.str || doc.tagOf e.1 == Tags.merge

end Document

/-- How many nodes have been looked at, the document itself among them, and how many of them
through aliases. -/
structure Effort where
  all : Nat := 1
  aliased : Nat := 0
deriving Repr

/-- Whether too large a share of the work comes from aliases: 99 percent is allowed for documents
of moderate size, less for larger ones, down to ten percent. -/
def Effort.isExcessive (e : Effort) : Bool :=
  if e.aliased ≤ 100 || e.all ≤ 1000 then false
  else if e.all ≤ 400000 then 99 * e.all < 100 * e.aliased
  else if 4000000 ≤ e.all then e.all < 10 * e.aliased
  else
    (99 * 3600000 - 89 * (e.all - 400000)) * e.all < 100 * 3600000 * e.aliased

abbrev Decoding := StateT Effort Option

/-- The numbers of the aliases that lead to a node, the latest first. -/
abbrev Trail := List Nat

namespace Decoding

def count (trail : Trail) : Decoding Unit := fun e =>
  let e : Effort := ⟨e.all + 1, if trail.isEmpty then e.aliased else e.aliased + 1⟩
  if e.isExcessive then none else some ((), e)

def atomOf (tag text : Text) : Option Atom :=
  if tag = Tags.str then some (.text text)
  else
    match Atom.resolve tag text with
    | none => none
    | some (found, atom) =>
      if found = Tags.binary then (Base64.decode text).map .text else some atom

/-- The text of a scalar as a key, whatever its value is; null is no key. -/
def keyOf (tag text : Text) : Option (Option Text) :=
  (atomOf tag text).map fun
    | .null => none
    | .text t => some t
    | _ => some text

section

variable (doc : Document)

/-- Follows an alias; one that leads to itself again leads nowhere. -/
def follow (trail : Trail) (number target : Nat) : Decoding (Trail × Node) :=
  if trail.contains number then failure
  else
    match doc.named[target]? with
    | some n => return (number :: trail, n)
    | none => failure

def scalarKey (trail : Trail) : Node → Decoding (Text × Text)
  | .scalar tag text => do
    count trail
    return (tag, text)
  | .alias number _ target => do
    count trail
    match ← follow doc trail number target with
    | (trail, .scalar tag text) =>
      count trail
      return (tag, text)
    | _ => failure
  | _ => failure

def anyKey (trail : Trail) (n : Node) : Decoding Atom := do
  let (tag, text) ← scalarKey doc trail n
  (atomOf tag text : Option Atom)

def key (textual : Bool) (trail : Trail) (n : Node) : Decoding (Option Atom) := do
  let (tag, text) ← scalarKey doc trail n
  if textual then
    let found ← (keyOf tag text : Option (Option Text))
    return found.map .text
  else
    let found ← (atomOf tag text : Option Atom)
    return some found

def mergeSource (trail : Trail) : Node → Decoding (Trail × List (Node × Node))
  | .mapping _ entries => do
    count trail
    return (trail, entries)
  | .alias number _ target => do
    count trail
    match ← follow doc trail number target with
    | (trail, .mapping _ entries) =>
      count trail
      return (trail, entries)
    | _ => failure
  | _ => failure

def mergeNodes : Node → List Node
  | .sequence _ items => items
  | n => [n]

structure Merged where
  taken : List Atom := []
  entries : List (Atom × Value) := []

/-- The entries whose key does not come again. -/
def lastEntries (entries : List (Atom × Value)) : List (Atom × Value) :=
  match entries with
  | [] => []
  | e :: rest =>
    if rest.any fun later => later.1.sameKey e.1 then lastEntries rest else e :: lastEntries rest

def asMap (own merged : List (Atom × Value)) : Value :=
  let kept := lastEntries own
  .map (kept ++ merged) (kept.length < own.length)

mutual

/-- The value of a node at the end of a trail. Nested calls are at most `fuel` deep. -/
def value : Nat → Trail → Node → Decoding Value
  | 0, _, _ => failure
  | fuel + 1, trail, n => do
    count trail
    match n with
    | .scalar tag text =>
      let atom ← (atomOf tag text : Option Atom)
      return .atom atom
    | .sequence _ items =>
      let values ← items.mapM fun item => value fuel trail item
      return .list values
    | .mapping _ entries =>
      if Node.hasRepeatedKey entries then failure
      else
        let textual := doc.hasTextKeys entries
        let own ← (entries.filter fun e => !e.1.isMerge).filterMapM fun e =>
          entry fuel trail textual e
        let merges := (entries.filter fun e => e.1.isMerge).getLast?
        match merges with
        | none => return asMap own []
        | some (_, node) =>
          let keys ← entries.mapM fun e => anyKey doc trail e.1
          let merged ← mergeAll fuel trail textual { taken := keys } (mergeNodes node)
          return asMap own merged.entries
    | .alias number _ target =>
      let (trail, n) ← follow doc trail number target
      value fuel trail n

def entry : Nat → Trail → Bool → Node × Node → Decoding (Option (Atom × Value))
  | 0, _, _, _ => failure
  | fuel + 1, trail, textual, e => do
    match ← key doc textual trail e.1 with
    | none => return none
    | some k =>
      let v ← value fuel trail e.2
      return some (k, v)

def mergeAll : Nat → Trail → Bool → Merged → List Node → Decoding Merged
  | 0, _, _, _, _ => failure
  | fuel + 1, trail, textual, merged, nodes =>
    nodes.foldlM (fun merged n => do
      let (trail, entries) ← mergeSource doc trail n
      mergeEntries fuel trail textual merged entries) merged

/-- Merges the entries of a mapping, then what that mapping merges itself. -/
def mergeEntries : Nat → Trail → Bool → Merged → List (Node × Node) → Decoding Merged
  | 0, _, _, _, _ => failure
  | fuel + 1, trail, textual, merged, entries => do
    if Node.hasRepeatedKey entries then failure
    else
      let merged ← (entries.filter fun e => !e.1.isMerge).foldlM (fun (merged : Merged) e => do
        match ← key doc textual trail e.1 with
        | none => return merged
        | some k =>
          if merged.taken.any k.sameKey then return merged
          else
            let merged := { merged with taken := k :: merged.taken }
            let v ← value fuel trail e.2
            return { merged with entries := merged.entries ++ [(k, v)] }) merged
      match (entries.filter fun e => e.1.isMerge).getLast? with
      | none => return merged
      | some (_, node) => mergeAll fuel trail textual merged (mergeNodes node)

end

end

end Decoding

/-- The value of the first document of a text, null when there is none; `none` when it cannot be
read. No alias leads to itself, so there are at most as many trails in one another as aliases. -/
def Value.ofText? (t : Text) : Option Value :=
  match Document.ofText? t with
  | none => none
  | some none => some (.atom .null)
  | some (some doc) =>
    (Decoding.value doc (4 * Nat.pow (t.length + 2) 2) [] doc.root {}).map (·.1)

end Yaml
end KeyScript
