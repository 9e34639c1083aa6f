import KeyScript.Yaml.Comment
import KeyScript.Yaml.Property

/-!
The division of a document into tokens. Collections are opened and closed by
indentation, so the layout keeps the columns of those that are open. Whether a
scalar is the key of a mapping is known only at the colon behind it; until then
the place of a possible key is kept, and the tokens that open it are put there
afterwards. Tokens wait in a queue until two more have been found and none can
be put in front of the first any more; then it is handed out.
-/

namespace KeyScript
namespace Yaml

structure KeyPlace where
  /-- Whether it is still one. -/
  possible : Bool := true
  /-- Whether nothing but a key can stand there. -/
  required : Bool := false
  /-- How many tokens come before it. -/
  number : Nat
  mark : Mark
deriving Repr

structure Layout where
  source : Source
  /-- The tokens that wait. -/
  queue : List Token := [.streamStart]
  /-- How many tokens have been handed out. -/
  handed : Nat := 0
  /-- The column of the innermost open block collection. -/
  indent : Int := -1
  indents : List Int := []
  /-- How many flow collections are open. -/
  depth : Nat := 0
  /-- The last possible key in each open flow collection, and in the block around them last. -/
  keys : List KeyPlace := [⟨false, false, 0, {}⟩]
  /-- The tokens that wait for a colon behind them, with the depth of their collection. -/
  watched : List (Nat × Nat) := []
  /-- Whether a key may start at the next token. -/
  keyAllowed : Bool := true

def maxKeyLength : Nat := 1024

def maxDepth : Nat := 10000

namespace Layout

def inFlow (s : Layout) : Bool :=
  s.depth != 0

def push (s : Layout) (t : Token) : Layout :=
  { s with queue := s.queue ++ [t] }

def nextNumber (s : Layout) : Nat :=
  s.handed + s.queue.length

/-- A token put in front of those from a number on, or behind all others when that place has been
handed out. -/
def insert (s : Layout) (number : Nat) (t : Token) : Layout :=
  if number < s.handed then s.push t
  else { s with queue := s.queue.insertIdx (number - s.handed) t }

def unwatch (s : Layout) (number : Nat) : Layout :=
  { s with watched := s.watched.eraseP fun w => w.1 == number }

/-- Gives up the possible key of the innermost collection; fails when a key is required there. -/
def dropKey (s : Layout) : Option Layout :=
  match s.keys with
  | place :: outer =>
    if !place.possible then some s
    else if place.required then none
    else some ({ s with keys := { place with possible := false } :: outer }.unwatch place.number)
  | [] => some s

def saveKey (s : Layout) : Option Layout :=
  if !s.keyAllowed then some s
  else do
    let place : KeyPlace :=
      { required := !s.inFlow && s.indent == (s.source.mark.column : Int)
        number := s.nextNumber, mark := s.source.mark }
    let s ← s.dropKey
    return { s with
      keys := place :: s.keys.tail, watched := (place.number, s.depth) :: s.watched }

/-- Opens a block collection at a column that is deeper than the open ones; `put` places its token
where it belongs. -/
def roll (s : Layout) (column : Nat) (put : Layout → Layout) : Option Layout :=
  if s.inFlow || (column : Int) ≤ s.indent then some s
  else if maxDepth ≤ s.indents.length then none
  else some (put { s with indent := column, indents := s.indent :: s.indents })

def closeDeeper (column : Int) (closed : Nat) (indent : Int) : List Int → Nat × Int × List Int
  | [] => (closed, indent, [])
  | outer :: rest =>
    if column < indent then closeDeeper column (closed + 1) outer rest
    else (closed, indent, outer :: rest)

def unroll (s : Layout) (column : Int) : Layout :=
  if s.inFlow then s
  else
    let (closed, indent, indents) := closeDeeper column 0 s.indent s.indents
    { s with queue := s.queue ++ List.replicate closed .blockEnd, indent, indents }

def take (s : Layout) (t : Token) : Layout :=
  { s with source := s.source.skip }.push t

def atOuterLevel (s : Layout) (read : Source → Option (Token × Source)) : Option Layout := do
  let s ← (s.unroll (-1)).dropKey
  let (t, source) ← read s.source
  return { s with source := source, keyAllowed := false }.push t

/-- A flow collection starts; inside it no key has been found, and the place of its own token stands
for none. -/
def openFlow (s : Layout) (t : Token) : Option Layout := do
  let s ← s.saveKey
  if maxDepth ≤ s.depth then none
  else
    let place : KeyPlace := { possible := false, number := s.nextNumber, mark := s.source.mark }
    return { s with depth := s.depth + 1, keys := place :: s.keys, keyAllowed := true }.take t

/-- A flow collection ends. The last place where a key could start in it is watched no longer; in an
empty collection that is the place of the collection itself. -/
def closeFlow (s : Layout) (t : Token) : Option Layout := do
  let s ← s.dropKey
  let s :=
    match s.keys with
    | place :: outer =>
      if s.inFlow then { s with depth := s.depth - 1, keys := outer }.unwatch place.number else s
    | [] => s
  return { s with keyAllowed := false }.take t

def flowEntry (s : Layout) : Option Layout := do
  let s ← s.dropKey
  return { s with keyAllowed := true }.take .flowEntry

/-- Opens a block collection here, unless one is open or the place is inside a flow collection. -/
def openBlock (s : Layout) (t : Token) : Option Layout :=
  if s.inFlow then some s
  else if s.keyAllowed then s.roll s.source.mark.column (·.push t)
  else none

def blockEntry (s : Layout) : Option Layout := do
  let s ← s.openBlock .blockSequenceStart
  let s ← s.dropKey
  return { s with keyAllowed := true }.take .blockEntry

def explicitKey (s : Layout) : Option Layout := do
  let s ← s.openBlock .blockMappingStart
  let s ← s.dropKey
  return { s with keyAllowed := !s.inFlow }.take .key

def isNear (s : Layout) (place : KeyPlace) : Bool :=
  let mark := s.source.mark
  !(place.mark.line < mark.line || place.mark.index + maxKeyLength < mark.index)

/-- The keys with the one at a position, the innermost first, looked at again: whether it can still
be a key. Fails when it cannot and is required. -/
def checkKey (s : Layout) (position : Nat) : Option (Bool × Layout) :=
  match s.keys[position]? with
  | none => some (false, s)
  | some place =>
    if !place.possible then some (false, s)
    else if s.isNear place then some (true, s)
    else if place.required then none
    else
      some (false, { s with keys := s.keys.set position { place with possible := false } })

/-- The colon in front of a value: what stood in front of it on the line was a key, or it follows a
key that was written out. -/
def mappingValue (s : Layout) : Option Layout := do
  let (found, s) ← s.checkKey 0
  let opened : Option Layout :=
    match found, s.keys with
    | true, place :: outer => do
      let s := s.insert place.number .key
      let s ← s.roll place.mark.column (·.insert place.number .blockMappingStart)
      let s := { s with keys := { place with possible := false } :: outer, keyAllowed := false }
      return s.unwatch place.number
    | _, _ => do
      let s ← s.openBlock .blockMappingStart
      return { s with keyAllowed := !s.inFlow }
  opened.map (·.take .value)

def property (s : Layout) (read : Source → Option (Token × Source)) : Option Layout := do
  let s ← s.saveKey
  let (t, source) ← read s.source
  return { s with source := source, keyAllowed := false }.push t

def scalarToken (text : Array Char) (plain : Bool) : Token :=
  .scalar (Text.ofChars text.toList) plain

def blockScalar (s : Layout) (literal : Bool) : Option Layout := do
  let s ← s.dropKey
  let (text, source) ← Block.read literal s.indent s.source.skip
  return { s with source := source, keyAllowed := true }.push (scalarToken text false)

def quotedScalar (s : Layout) (single : Bool) : Option Layout :=
  s.property fun source => do
    let (text, source) ← Quoted.read single (source.size + 2) #[] source.skip
    return (scalarToken text false, source)

def plainScalar (s : Layout) : Option Layout := do
  let s ← s.saveKey
  let (text, source, newLine) ←
    Plain.read s.inFlow (s.indent + 1).toNat (s.source.size + 2) #[] [] s.source
  return { s with source := source, keyAllowed := newLine }.push (scalarToken text true)

def startsPlain (inFlow : Bool) (c : Char) (next : Option Char) : Bool :=
  !(isBlank c || isBreak c || "-?:,[]\x7b\x7d#&*!|>'\"%@`".toList.contains c) ||
    (c == '-' && !(next.any isBlank)) ||
    (!inFlow && (c == '?' || c == ':') && !(next.all fun d => isBlank d || isBreak d))

def finish (s : Layout) : Option Layout := do
  let mark := s.source.mark
  let line := if mark.column == 0 then mark.line else mark.line + 1
  let s := { s with source := { s.source with mark := ⟨mark.index, line, 0⟩ } }
  let s ← (s.unroll (-1)).dropKey
  return { s with keyAllowed := false }.push .streamEnd

def content (s : Layout) (c : Char) : Option Layout :=
  let source := s.source
  if c == '[' then s.openFlow .flowSequenceStart
  else if c == '{' then s.openFlow .flowMappingStart
  else if c == ']' then s.closeFlow .flowSequenceEnd
  else if c == '}' then s.closeFlow .flowMappingEnd
  else if c == ',' then s.flowEntry
  else if c == '-' && source.blankAhead 1 then s.blockEntry
  else if c == '?' && (s.inFlow || source.blankAhead 1) then s.explicitKey
  else if c == ':' && (s.inFlow || source.blankAhead 1) then s.mappingValue
  else if c == '*' then
    s.property fun source => (readName source.skip).map fun (n, r) => (.alias n, r)
  else if c == '&' then
    s.property fun source => (readName source.skip).map fun (n, r) => (.anchor n, r)
  else if c == '!' then s.property Tag.read
  else if c == '|' && !s.inFlow then s.blockScalar true
  else if c == '>' && !s.inFlow then s.blockScalar false
  else if c == '\'' then s.quotedScalar true
  else if c == '"' then s.quotedScalar false
  else if startsPlain s.inFlow c source.rest[1]? then s.plainScalar
  else none

/-- A comment may follow a token of the content on its line, but not the mark of a sequence
entry. -/
def passComment (s : Layout) : Option Layout :=
  if s.queue.getLast? == some .blockEntry then some s
  else s.source.skipLineComment.map fun source => { s with source := source }

def next (s : Layout) : Option Layout := do
  let source ← s.source.need 1
  let (allowed, source) ← source.skipToToken s.inFlow (source.size + 2) s.keyAllowed
  let s := { s with source := source, keyAllowed := allowed }.unroll source.mark.column
  let source ← s.source.need 4
  let s := { s with source := source }
  match source.peek with
  | none => s.finish
  | some c =>
    if c == '%' && source.mark.column == 0 then
      s.atOuterLevel fun source => Directive.read source.skip
    else if source.isRule '-' then
      s.atOuterLevel fun source => some (.documentStart, Source.skipMany 3 source)
    else if source.isRule '.' then
      s.atOuterLevel fun source => some (.documentEnd, Source.skipMany 3 source)
    else do
      let s ← s.content c
      s.passComment

def awaitsColon (s : Layout) : Option (Bool × Layout) :=
  match s.watched.lookup s.handed with
  | none => some (false, s)
  | some depth => if depth ≤ s.depth then s.checkKey (s.depth - depth) else some (false, s)

def fill : Nat → Layout → Option Layout
  | 0, _ => none
  | fuel + 1, s => do
    let (waiting, s) ←
      match s.queue with
      | _ :: _ :: _ :: _ => s.awaitsColon
      | _ => some (true, s)
    if waiting then
      let s ← s.next
      fill fuel s
    else some s

def handOut (s : Layout) : Option (Token × Layout) := do
  let s ← fill (s.source.size + 8) s
  match s.queue with
  | t :: queue => some (t, { s with queue := queue, handed := s.handed + 1 })
  | [] => none

def run : Nat → Array Token → Layout → Array Token
  | 0, found, _ => found
  | fuel + 1, found, s =>
    match s.handOut with
    | none => found
    | some (.streamEnd, _) => found.push .streamEnd
    | some (t, s) => run fuel (found.push t) s

end Layout

/-- The tokens of a text that can be used; those that wait when a mistake is met cannot. -/
def tokensOf (t : Text) : List Token :=
  match (Source.ofText t).need 1 with
  | none => []
  | some source => (Layout.run (4 * source.size + 16) #[] { source := source }).toList

end Yaml
end KeyScript
