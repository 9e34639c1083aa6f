import KeyScript.Yaml.Atom
import KeyScript.Yaml.Layout

/-!
The tree of nodes in a document, put together from its tokens. A scalar has the
tag that was given to it or that its text has by itself. An alias stands for a
node with a name; that can be a node that the alias is part of, so the named
nodes are kept beside the tree and aliases refer to them by number.
-/

namespace KeyScript
namespace Yaml

inductive Node where
  | scalar (tag text : Text)
  | sequence (tag : Text) (items : List Node)
  | mapping (tag : Text) (entries : List (Node × Node))
  /-- An alias with a number of its own; `target` is the number of the node it stands for. -/
  | alias (number : Nat) (name : Text) (target : Nat)
deriving Repr

def Node.empty : Node := .scalar Tags.null []

/-- A document: its root, and the nodes with names in the order in which they start. -/
structure Document where
  root : Node
  named : Array Node
deriving Repr

structure Reading where
  tokens : List Token
  handles : List (Text × Text) := []
  /-- The names so far with the numbers of their nodes, the latest first. -/
  names : List (Text × Nat) := []
  /-- The nodes with names; one that is being read is still empty. -/
  named : Array Node := #[]
  /-- How many aliases there have been. -/
  aliases : Nat := 0

def givenTag (tag : Text) : Option Text :=
  if tag = [] ∨ tag = utf8 "!" then none else some (Tags.short tag)

/-- The scalar with a text. Text that is not plain is never anything but text, and two plain angle
brackets ask for a merge. -/
def Node.ofText (tag text : Text) (plain : Bool) : Node :=
  let natural :=
    if !plain then Tags.str
    else if text = utf8 "<<" then Tags.merge
    else (Atom.ofForm [] text).1
  .scalar ((givenTag tag).getD natural) text

namespace Reading

def peek (r : Reading) : Option Token :=
  r.tokens.head?

def skip (r : Reading) : Reading :=
  { r with tokens := r.tokens.tail }

def sees (r : Reading) (ts : List Token) : Bool :=
  r.peek.any ts.contains

def standardHandles : List (Text × Text) :=
  [(utf8 "!", utf8 "!"), (utf8 "!!", Tags.longForm)]

def expand (r : Reading) (handle suffix : Text) : Option Text :=
  if handle.isEmpty then some suffix
  else (r.handles.lookup handle).map (· ++ suffix)

structure Properties where
  anchor : Option Text := none
  tag : Text := []

def readAnchor (r : Reading) : Option Text × Reading :=
  match r.peek with
  | some (.anchor name) => (some name, r.skip)
  | _ => (none, r)

def readTag (r : Reading) : Option (Option Text × Reading) :=
  match r.peek with
  | some (.tag handle suffix) => (r.expand handle suffix).map fun tag => (some tag, r.skip)
  | _ => some (none, r)

def properties (r : Reading) : Option (Properties × Reading) :=
  match r.readAnchor with
  | (some name, r) => r.readTag.map fun (tag, r) => (⟨some name, tag.getD []⟩, r)
  | (none, r) =>
    r.readTag.map fun
      | (none, r) => ({}, r)
      | (some tag, r) => (⟨r.readAnchor.1, tag⟩, r.readAnchor.2)

def opened (r : Reading) (anchor : Option Text) : Option Nat × Reading :=
  match anchor with
  | some name =>
    let number := r.named.size
    (some number,
      { r with names := (name, number) :: r.names, named := r.named.push .empty })
  | none => (none, r)

def closed (r : Reading) (number : Option Nat) (node : Node) : Reading :=
  match number with
  | some n => { r with named := r.named.setIfInBounds n node }
  | none => r

def aliased (r : Reading) (name : Text) : Option (Node × Reading) :=
  (r.names.lookup name).map fun target =>
    (.alias r.aliases name target, { r.skip with aliases := r.aliases + 1 })

def collectionTag (tag usual : Text) : Text :=
  (givenTag tag).getD usual

mutual

/-- Reads a node. Block collections are read only in a block, and a sequence without indentation
of its own only where a mapping allows it. Nested calls are at most `fuel` deep. -/
def node : Nat → Bool → Bool → Reading → Option (Node × Reading)
  | 0, _, _, _ => none
  | fuel + 1, block, indentless, r =>
    match r.peek with
    | some (.alias name) => r.aliased name
    | _ =>
      match r.properties with
      | none => none
      | some (props, r) =>
        let (number, r) := r.opened props.anchor
        let whole (n : Node) (r : Reading) : Option (Node × Reading) :=
          some (n, r.closed number n)
        match r.peek with
        | none => none
        | some t =>
          if indentless && t == .blockEntry then
            match indentlessSequence fuel #[] r with
            | some (items, r) => whole (.sequence (collectionTag props.tag Tags.seq) items) r
            | none => none
          else
            match t with
            | .scalar text plain => whole (.ofText props.tag text plain) r.skip
            | .flowSequenceStart =>
              match flowSequence fuel true #[] r.skip with
              | some (items, r) => whole (.sequence (collectionTag props.tag Tags.seq) items) r
              | none => none
            | .flowMappingStart =>
              match flowMapping fuel true #[] r.skip with
              | some (entries, r) => whole (.mapping (collectionTag props.tag Tags.map) entries) r
              | none => none
            | _ =>
              if block && t == .blockSequenceStart then
                match blockSequence fuel #[] r.skip with
                | some (items, r) => whole (.sequence (collectionTag props.tag Tags.seq) items) r
                | none => none
              else if block && t == .blockMappingStart then
                match blockMapping fuel #[] r.skip with
                | some (entries, r) => whole (.mapping (collectionTag props.tag Tags.map) entries) r
                | none => none
              else if props.anchor.isSome || !props.tag.isEmpty then
                whole (.ofText props.tag [] true) r
              else none

/-- Reads a node unless one of the given tokens comes first, where nothing is written. -/
def nodeUnless : Nat → List Token → Bool → Bool → Reading → Option (Node × Reading)
  | 0, _, _, _, _ => none
  | fuel + 1, stops, block, indentless, r =>
    if r.peek.isNone then none
    else if r.sees stops then some (.empty, r)
    else node fuel block indentless r

def blockSequence : Nat → Array Node → Reading → Option (List Node × Reading)
  | 0, _, _ => none
  | fuel + 1, items, r =>
    match r.peek with
    | some .blockEntry =>
      match nodeUnless fuel [.blockEntry, .blockEnd] true false r.skip with
      | some (item, r) => blockSequence fuel (items.push item) r
      | none => none
    | some .blockEnd => some (items.toList, r.skip)
    | _ => none

/-- The entries of a sequence at the indentation of the mapping around it. -/
def indentlessSequence : Nat → Array Node → Reading → Option (List Node × Reading)
  | 0, _, _ => none
  | fuel + 1, items, r =>
    match r.peek with
    | none => none
    | some .blockEntry =>
      match nodeUnless fuel [.blockEntry, .key, .value, .blockEnd] true false r.skip with
      | some (item, r) => indentlessSequence fuel (items.push item) r
      | none => none
    | some _ => some (items.toList, r)

def blockMapping : Nat → Array (Node × Node) → Reading → Option (List (Node × Node) × Reading)
  | 0, _, _ => none
  | fuel + 1, entries, r =>
    match r.peek with
    | some .key =>
      match nodeUnless fuel [.key, .value, .blockEnd] true true r.skip with
      | none => none
      | some (key, r) =>
        match blockValue fuel r with
        | some (value, r) => blockMapping fuel (entries.push (key, value)) r
        | none => none
    | some .blockEnd => some (entries.toList, r.skip)
    | _ => none

def blockValue : Nat → Reading → Option (Node × Reading)
  | 0, _ => none
  | fuel + 1, r =>
    match r.peek with
    | none => none
    | some .value => nodeUnless fuel [.key, .value, .blockEnd] true true r.skip
    | some _ => some (.empty, r)

def flowSequence : Nat → Bool → Array Node → Reading → Option (List Node × Reading)
  | 0, _, _, _ => none
  | fuel + 1, first, items, r =>
    if r.sees [.flowSequenceEnd] then some (items.toList, r.skip)
    else if !first && !r.sees [.flowEntry] then none
    else
      let r := if first then r else r.skip
      match r.peek with
      | none => none
      | some .flowSequenceEnd => some (items.toList, r.skip)
      | some .key =>
        match flowPair fuel r.skip with
        | some (pair, r) =>
          flowSequence fuel false (items.push (.mapping Tags.map [pair])) r
        | none => none
      | some _ =>
        match node fuel false false r with
        | some (item, r) => flowSequence fuel false (items.push item) r
        | none => none

def flowPair : Nat → Reading → Option ((Node × Node) × Reading)
  | 0, _ => none
  | fuel + 1, r =>
    let key :=
      if r.sees [.value, .flowEntry, .flowSequenceEnd] then some (Node.empty, r.skip)
      else node fuel false false r
    match key with
    | none => none
    | some (key, r) =>
      match flowValue fuel [.flowEntry, .flowSequenceEnd] r with
      | some (value, r) => some ((key, value), r)
      | none => none

def flowValue : Nat → List Token → Reading → Option (Node × Reading)
  | 0, _, _ => none
  | fuel + 1, stops, r =>
    match r.peek with
    | none => none
    | some .value => nodeUnless fuel stops false false r.skip
    | some _ => some (.empty, r)

def flowMapping : Nat → Bool → Array (Node × Node) → Reading →
    Option (List (Node × Node) × Reading)
  | 0, _, _, _ => none
  | fuel + 1, first, entries, r =>
    if r.sees [.flowMappingEnd] then some (entries.toList, r.skip)
    else if !first && !r.sees [.flowEntry] then none
    else
      let r := if first then r else r.skip
      match r.peek with
      | none => none
      | some .flowMappingEnd => some (entries.toList, r.skip)
      | some .key =>
        match nodeUnless fuel [.value, .flowEntry, .flowMappingEnd] false false r.skip with
        | none => none
        | some (key, r) =>
          match flowValue fuel [.flowEntry, .flowMappingEnd] r with
          | some (value, r) => flowMapping fuel false (entries.push (key, value)) r
          | none => none
      | some _ =>
        match node fuel false false r with
        | some (key, r) => flowMapping fuel false (entries.push (key, .empty)) r
        | none => none

end

/-- Reads the directives in front of a document; `versioned` tells whether one has named the
version, which can only be 1.1. -/
def directives (versioned : Bool) (handles : List (Text × Text)) :
    List Token → Option (List (Text × Text) × List Token)
  | .version major minor :: rest =>
    if versioned || major != 1 || minor != 1 then none else directives true handles rest
  | .tagHandle handle expansion :: rest =>
    if (handles.lookup handle).isSome then none
    else directives versioned ((handle, expansion) :: handles) rest
  | rest => some (handles, rest)

def withHandles (handles : List (Text × Text)) (tokens : List Token) : Reading :=
  { tokens := tokens, handles := handles ++ standardHandles }

def ended (found : Option (Node × Reading)) : Option (Option Document) :=
  match found with
  | some (n, r) => if r.peek.isSome then some (some ⟨n, r.named⟩) else none
  | none => none

end Reading

/-- The first document of a text: `some none` when there is no document, `none` when it is not well
formed. -/
def Document.ofText? (t : Text) : Option (Option Document) :=
  let tokens := (tokensOf t).tail
  let fuel := 4 * tokens.length + 8
  match tokens with
  | [] => none
  | .streamEnd :: _ => some none
  | first :: _ =>
    match first with
    | .version .. | .tagHandle .. | .documentStart =>
      match Reading.directives false [] tokens with
      | some (handles, .documentStart :: rest) =>
        let r := Reading.withHandles handles rest
        Reading.ended <|
          match r.peek with
          | none => none
          | some (.version ..) | some (.tagHandle ..) => some (.empty, r)
          | some _ =>
            if r.sees [.documentStart, .documentEnd, .streamEnd] then some (.empty, r)
            else r.node fuel true false
      | _ => none
    | _ => Reading.ended ((Reading.withHandles [] tokens).node fuel true false)

end Yaml
end KeyScript
