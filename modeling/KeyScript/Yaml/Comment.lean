import KeyScript.Yaml.Source

/-!
White space and comments between tokens. Behind a comment the next one is looked
for across lines, so that comments follow each other whatever stands in front of
them; but it is looked for only so far, and only across plain line ends.
-/

namespace KeyScript
namespace Yaml

def commentReach : Nat := 512

def isPlainBreak (c : Char) : Bool :=
  c == '\n' || c == '\r'

namespace Source

/-- How far away the next comment is, if only white space stands before it. `ahead` is what follows
`distance` characters from here, and at most `reach` more are looked at; line ends are passed over
where `across` says so. -/
def findComment (across : Bool) : Nat → Nat → List Char → Source → Option (Option Nat × Source)
  | 0, _, _, s => some (none, s)
  | reach + 1, distance, ahead, s => do
    let s ← s.need (distance + 1)
    match ahead with
    | [] => some (none, s)
    | c :: more =>
      if isBlank c || (across && isPlainBreak c) then
        findComment across reach (distance + 1) more s
      else if c == '#' then some (some distance, s)
      else if across && isBreak c && reach != 0 then (s.need (distance + 2)).map ((none, ·))
      else some (none, s)

def cross (index : Nat) : Nat → Source → Option Source
  | 0, s => some s
  | fuel + 1, s =>
    if index ≤ s.mark.index then some s
    else do
      let s ← s.need 1
      if s.peek.any isBreak then
        let s ← s.need 2
        cross index fuel s.skipBreak
      else cross index fuel s.skip

def passComment (s : Source) (distance : Nat) : Option Source := do
  let s ← cross (s.mark.index + distance) commentReach s
  s.toLineEnd

def nextComment (s : Source) : Option (Option Nat × Source) :=
  if s.peek.any fun c => isBreak c && !isPlainBreak c then (s.need 2).map ((none, ·))
  else findComment true (commentReach - 1) 1 s.rest.tail s

def skipComments : Nat → Source → Option Source
  | 0, s => some s
  | fuel + 1, s => do
    let (found, s) ← s.nextComment
    match found with
    | none => some s
    | some distance =>
      let s ← s.passComment distance
      skipComments fuel s

def skipLineComment (s : Source) : Option Source :=
  if s.breaks != 0 then some s
  else do
    let (found, s) ← findComment false commentReach 0 s.rest s
    match found with
    | none => some s
    | some distance => s.passComment distance

/-- Skips white space and comments up to the next token, at most `fuel` lines. Also tells whether a
key may start there: a new line in a block allows it. Tabs are white space only where no key may
start. While the characters at hand start with a byte order mark, the first character of a line is
taken for one. -/
def skipToToken (inFlow : Bool) : Nat → Bool → Source → Option (Bool × Source)
  | 0, allowed, s => some (allowed, s)
  | fuel + 1, allowed, s => do
    let s ← s.need 1
    let s := if s.mark.column == 0 && s.marked then s.skip else s
    let s ← s.skipWhile fun c => c == ' ' || ((inFlow || !allowed) && c == '\t')
    let s ←
      if s.peek == some '#' then do
        let s ← s.toLineEnd
        skipComments (s.size + 1) s
      else some s
    if s.peek.any isBreak then
      let s ← s.need 2
      skipToToken inFlow fuel (allowed || !inFlow) s.skipBreak
    else some (allowed, s)

end Source
end Yaml
end KeyScript
