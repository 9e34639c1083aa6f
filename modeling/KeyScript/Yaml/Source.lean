import KeyScript.Yaml.Characters

/-!
The place up to which a document has been read. Characters are looked at ahead
of that place, and as many as are looked at have to be decoded first. The
characters at hand start where they last ran short; it matters whether they
start with a byte order mark.
-/

namespace KeyScript
namespace Yaml

structure Mark where
  index : Nat := 0
  line : Nat := 0
  column : Nat := 0
deriving DecidableEq, Repr

def isBreak (c : Char) : Bool :=
  c == '\n' || c == '\r' || c == '\u0085' || c == '\u2028' || c == '\u2029'

def isBlank (c : Char) : Bool :=
  c == ' ' || c == '\t'

def byteOrderMark : Char := '\uFEFF'

structure Source where
  /-- What is left of it. -/
  rest : List Char
  mark : Mark := {}
  /-- The lines ended since the last character that was not blank. -/
  breaks : Nat := 0
  /-- How many characters are at hand, the end of the document counted each time it is met. -/
  ready : Nat := 0
  /-- The numbers of characters in the pieces that are not at hand. -/
  counts : List Nat
  /-- Whether a piece follows them that cannot be decoded. -/
  spoiled : Bool
  /-- Whether the characters at hand start with a byte order mark. -/
  marked : Bool := false
  /-- How many characters the document has. -/
  size : Nat
deriving Repr

namespace Source

def ofText (t : Text) : Source :=
  let cs := Characters.ofText t
  { rest := cs.all, counts := cs.counts, spoiled := cs.spoiled, size := cs.all.length }

/-- The characters at hand once there are `wanted` of them or the end is met, and the pieces left;
`none` when that takes a piece that cannot be decoded. -/
def gather (wanted : Nat) (spoiled : Bool) : Nat → List Nat → Option (Nat × List Nat)
  | ready, [] => if spoiled then none else some (ready + 1, [])
  | ready, count :: more =>
    if wanted ≤ ready + count then some (ready + count, more)
    else gather wanted spoiled (ready + count) more

def need (s : Source) (n : Nat) : Option Source :=
  if n ≤ s.ready then some s
  else
    match gather n s.spoiled s.ready s.counts with
    | some (ready, counts) =>
      some { s with ready, counts, marked := s.rest.head? == some byteOrderMark }
    | none => none

def peek (s : Source) : Option Char :=
  s.rest.head?

def skip (s : Source) : Source :=
  { s with
    rest := s.rest.tail
    mark := ⟨s.mark.index + 1, s.mark.line, s.mark.column + 1⟩
    breaks := if s.peek.any isBlank then s.breaks else 0
    ready := s.ready - 1 }

def skipMany : Nat → Source → Source
  | 0, s => s
  | n + 1, s => skipMany n s.skip

def endLine (s : Source) (width : Nat) : Source :=
  { s with
    rest := s.rest.drop width
    mark := ⟨s.mark.index + width, s.mark.line + 1, 0⟩
    breaks := s.breaks + 1
    ready := s.ready - width }

/-- Reads the end of a line, if one is here: what it stands for, and the document behind it. A
carriage return with a line feed is one line end, and both stand for a line feed, as does the
next-line character. -/
def takeBreak (s : Source) : List Char × Source :=
  match s.rest with
  | '\r' :: '\n' :: _ => (['\n'], s.endLine 2)
  | c :: _ =>
    if !isBreak c then ([], s)
    else if c == '\u2028' || c == '\u2029' then ([c], s.endLine 1)
    else (['\n'], s.endLine 1)
  | [] => ([], s)

def skipBreak (s : Source) : Source :=
  s.takeBreak.2

def readRun (p : Char → Bool) : Nat → Array Char → Source → Option (Array Char × Source)
  | 0, found, s => some (found, s)
  | fuel + 1, found, s =>
    match s.peek with
    | none => some (found, s)
    | some c =>
      if p c then
        match s.skip.need 1 with
        | some s => readRun p fuel (found.push c) s
        | none => none
      else some (found, s)

def takeWhile (s : Source) (p : Char → Bool) : Option (List Char × Source) := do
  let s ← s.need 1
  let (found, s) ← readRun p (s.size + 1) #[] s
  return (found.toList, s)

def skipWhile (s : Source) (p : Char → Bool) : Option Source :=
  (s.takeWhile p).map (·.2)

def toLineEnd (s : Source) : Option Source :=
  s.skipWhile fun c => !isBreak c

def passLineEnd (s : Source) : Option Source :=
  if s.peek.any isBreak then (s.need 2).map skipBreak else some s

def endOr (s : Source) (n : Nat) (p : Char → Bool) : Bool :=
  s.rest[n]?.all p

def blankAhead (s : Source) (n : Nat) : Bool :=
  s.endOr n fun c => isBlank c || isBreak c

def atLineEnd (s : Source) : Bool :=
  s.endOr 0 isBreak

def atGap (s : Source) : Bool :=
  s.peek.any fun c => isBlank c || isBreak c

def hasAt (s : Source) (n : Nat) (c : Char) : Bool :=
  s.rest[n]? == some c

def isRule (s : Source) (c : Char) : Bool :=
  s.mark.column == 0 && s.hasAt 0 c && s.hasAt 1 c && s.hasAt 2 c && s.blankAhead 3

def atDocumentMark (s : Source) : Bool :=
  s.isRule '-' || s.isRule '.'

end Source
end Yaml
end KeyScript
