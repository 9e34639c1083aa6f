import KeyScript.Yaml.Source

/-!
The text of scalars, in each of the ways it can be written: plain, between
quotes, or as an indented block. Lines are folded: one line break becomes a
space, and of several breaks the first is dropped.
-/

namespace KeyScript
namespace Yaml

def joinGap (gap : List Char) : List Char :=
  match gap.filter isBreak with
  | [] => gap
  | first :: more =>
    if first == '\n' then (if more.isEmpty then [' '] else more) else first :: more

def joinAfterEscape (gap : List Char) : List Char :=
  gap.filter isBreak

/-- Reads the white space that comes next, at most `fuel` characters of it. A tab in front of the
column `limit` is refused behind a line end; `after` tells whether there was one. -/
def Source.readGap (limit : Nat) : Nat → Bool → Array Char → Source → Option (Array Char × Source)
  | 0, _, found, s => some (found, s)
  | fuel + 1, after, found, s =>
    match s.peek with
    | none => some (found, s)
    | some c =>
      if isBlank c then
        if after && c == '\t' && s.mark.column < limit then none
        else do
          let s ← s.skip.need 1
          readGap limit fuel after (found.push c) s
      else if isBreak c then do
        let s ← s.need 2
        let (line, s) := s.takeBreak
        let s ← s.need 1
        readGap limit fuel true (found ++ line.toArray) s
      else some (found, s)

def Source.takeGap (s : Source) (limit : Nat) : Option (List Char × Source) := do
  let s ← s.need 1
  let (found, s) ← readGap limit (s.size + 1) false #[] s
  return (found.toList, s)

namespace Quoted

def hexValue (c : Char) : Option Nat :=
  let n := c.toNat
  if 48 ≤ n && n ≤ 57 then some (n - 48)
  else if 65 ≤ n && n ≤ 70 then some (n - 55)
  else if 97 ≤ n && n ≤ 102 then some (n - 87)
  else none

def escape (c : Char) : Option Char :=
  match c with
  | '0' => some '\x00'
  | 'a' => some '\x07'
  | 'b' => some '\x08'
  | 't' => some '\t'
  | '\t' => some '\t'
  | 'n' => some '\n'
  | 'v' => some '\x0b'
  | 'f' => some '\x0c'
  | 'r' => some '\r'
  | 'e' => some '\x1b'
  | ' ' => some ' '
  | '"' => some '"'
  | '\'' => some '\''
  | '\\' => some '\\'
  | 'N' => some '\u0085'
  | '_' => some '\u00A0'
  | 'L' => some '\u2028'
  | 'P' => some '\u2029'
  | _ => none

def codeLength (c : Char) : Nat :=
  match c with
  | 'x' => 2
  | 'u' => 4
  | 'U' => 8
  | _ => 0

/-- The character with a code of `n` hexadecimal digits on top of a value; it must exist. -/
def codeOf : Nat → Nat → List Char → Option Char
  | 0, value, _ =>
    if (0xD800 ≤ value && value ≤ 0xDFFF) || 0x10FFFF < value then none
    else some (Char.ofNat value)
  | _ + 1, _, [] => none
  | n + 1, value, c :: rest =>
    match hexValue c with
    | some d => codeOf n (value * 16 + d) rest
    | none => none

def readEscape (c : Char) (s : Source) : Option (Char × Source) :=
  let length := codeLength c
  if length == 0 then (escape c).map fun found => (found, s)
  else do
    let s ← s.need length
    let found ← codeOf length 0 s.rest
    return (found, Source.skipMany length s)

/-- Reads text up to white space or the closing quote, at most `fuel` characters. Between single
quotes a quote is written twice; between double quotes a backslash escapes. Also tells whether the
text ended with an escaped line end. -/
def readRun (single : Bool) : Nat → Array Char → Source → Option (Array Char × Source × Bool)
  | 0, _, _ => none
  | fuel + 1, found, s =>
    match s.rest with
    | [] => some (found, s, false)
    | c :: ahead =>
      if isBlank c || isBreak c then some (found, s, false)
      else if single && c == '\'' then
        if ahead.head? == some '\'' then do
          let s ← s.skip.skip.need 2
          readRun single fuel (found.push '\'') s
        else some (found, s, false)
      else if !single && c == '"' then some (found, s, false)
      else if !single && c == '\\' then
        match ahead with
        | [] => none
        | d :: _ =>
          if isBreak d then (s.need 3).map fun s => (found, s.skip.skipBreak, true)
          else do
            let (e, s) ← readEscape d s.skip.skip
            let s ← s.need 2
            readRun single fuel (found.push e) s
      else do
        let s ← s.skip.need 2
        readRun single fuel (found.push c) s

def read (single : Bool) : Nat → Array Char → Source → Option (Array Char × Source)
  | 0, _, _ => none
  | fuel + 1, found, s => do
    let s ← s.need 4
    if s.atDocumentMark || s.rest.isEmpty then none
    else
      let (found, s, broken) ← readRun single (s.size + 2) found s
      let s ← s.need 1
      if s.peek == some (if single then '\'' else '"') then some (found, s.skip)
      else
        let (gap, s) ← s.takeGap 0
        let filler := if broken then joinAfterEscape gap else joinGap gap
        read single fuel (found ++ filler.toArray) s

end Quoted

namespace Plain

def endsAt (inFlow : Bool) (c : Char) (next : Option Char) : Bool :=
  isBlank c || isBreak c ||
    (c == ':' && next.all fun d => isBlank d || isBreak d) ||
    (inFlow && (c == ',' || c == '?' || c == '[' || c == ']' || c == '{' || c == '}'))

def readRun (inFlow : Bool) : Nat → Array Char → Source → Option (Array Char × Source)
  | 0, found, s => some (found, s)
  | fuel + 1, found, s =>
    match s.rest with
    | [] => some (found, s)
    | c :: ahead =>
      if endsAt inFlow c ahead.head? then some (found, s)
      else do
        let s ← s.skip.need 2
        readRun inFlow fuel (found.push c) s

/-- Reads a plain scalar, at most `fuel` runs; `gap` is the white space in front of the next run.
Also tells whether a line ended behind the scalar. -/
def read (inFlow : Bool) (indent : Nat) :
    Nat → Array Char → List Char → Source → Option (Array Char × Source × Bool)
  | 0, _, _, _ => none
  | fuel + 1, found, gap, s => do
    let s ← s.need 4
    if s.atDocumentMark || s.peek == some '#' then some (found, s, gap.any isBreak)
    else
      let (text, s) ← readRun inFlow (s.size + 1) #[] s
      let found := if text.isEmpty then found else found ++ (joinGap gap).toArray ++ text
      let gap := if text.isEmpty then gap else []
      if !s.atGap then some (found, s, gap.any isBreak)
      else
        let (gap, s) ← s.takeGap indent
        if !inFlow && s.mark.column < indent then some (found, s, gap.any isBreak)
        else read inFlow indent fuel found gap s

end Plain

namespace Block

inductive Chomp where
  | strip
  | clip
  | keep
deriving DecidableEq, Repr

structure Header where
  chomp : Chomp := .clip
  increment : Nat := 0

def chompOf? (c : Char) : Option Chomp :=
  if c == '+' then some .keep else if c == '-' then some .strip else none

def readIncrement (s : Source) : Option (Nat × Source) :=
  match s.peek with
  | none => some (0, s)
  | some c =>
    if c == '0' then none
    else if '1' ≤ c && c ≤ '9' then some (c.toNat - 48, s.skip)
    else some (0, s)

def readHeader (s : Source) : Option (Header × Source) := do
  let s ← s.need 1
  match s.peek.bind chompOf? with
  | some chomp =>
    let s ← s.skip.need 1
    let (n, s) ← readIncrement s
    return (⟨chomp, n⟩, s)
  | none =>
    let (n, s) ← readIncrement s
    if n = 0 then some ({}, s)
    else
      let s ← s.need 1
      match s.peek.bind chompOf? with
      | some chomp => some (⟨chomp, n⟩, s.skip)
      | none => some (⟨.clip, n⟩, s)

/-- Skips the spaces of an indentation, at most `fuel` of them. An indentation of 0 is not known
yet. -/
def skipIndent (indent : Nat) : Nat → Source → Option Source
  | 0, s => some s
  | fuel + 1, s =>
    if s.peek == some ' ' && (indent == 0 || s.mark.column < indent) then do
      let s ← s.skip.need 1
      skipIndent indent fuel s
    else some s

/-- Reads indentation and empty lines, at most `fuel` of them: the breaks of the empty lines and the
greatest column reached. -/
def readBreaks (indent : Nat) : Nat → Array Char → Nat → Source →
    Option (Array Char × Nat × Source)
  | 0, _, _, _ => none
  | fuel + 1, breaks, deepest, s => do
    let s ← s.need 1
    let s ← skipIndent indent (s.size + 1) s
    let deepest := max deepest s.mark.column
    if s.peek == some '\t' && (indent == 0 || s.mark.column < indent) then none
    else if s.peek.any isBreak then
      let s ← s.need 2
      let (line, s) := s.takeBreak
      readBreaks indent fuel (breaks ++ line.toArray) deepest s
    else some (breaks, deepest, s)

structure Lines where
  text : Array Char := #[]
  ending : List Char := []
  breaks : List Char := []
  /-- Whether the last line started with a blank. -/
  indented : Bool := false

def Lines.joined (l : Lines) (literal blankNext : Bool) : Array Char :=
  let folds := !literal && !l.indented && !blankNext && l.ending.head? == some '\n'
  let between := if folds then (if l.breaks.isEmpty then [' '] else []) else l.ending
  l.text ++ between.toArray ++ l.breaks.toArray

def readLines (literal : Bool) (indent : Nat) : Nat → Lines → Source → Option (Lines × Source)
  | 0, _, _ => none
  | fuel + 1, l, s => do
    let s ← s.need 1
    if s.mark.column != indent || s.rest.isEmpty then some (l, s)
    else
      let blank := s.peek.any isBlank
      let (line, s) ← s.takeWhile fun c => !isBreak c
      let s ← s.need 2
      let (ending, s) := s.takeBreak
      let (breaks, _, s) ← readBreaks indent (s.size + 2) #[] 0 s
      readLines literal indent fuel
        { text := l.joined literal blank ++ line.toArray, ending := ending,
          breaks := breaks.toList, indented := blank } s

def Lines.finish (l : Lines) (chomp : Chomp) : Array Char :=
  match chomp with
  | .strip => l.text
  | .clip => l.text ++ l.ending.toArray
  | .keep => l.text ++ l.ending.toArray ++ l.breaks.toArray

def read (literal : Bool) (parent : Int) (s : Source) : Option (Array Char × Source) := do
  let (header, s) ← readHeader s
  let s ← s.skipWhile isBlank
  let s ← if s.peek == some '#' then s.toLineEnd else some s
  if !s.atLineEnd then none
  else
    let s ← s.passLineEnd
    let given := if header.increment = 0 then 0 else header.increment + parent.toNat
    let (breaks, deepest, s) ← readBreaks given (s.size + 2) #[] 0 s
    let indent := if given = 0 then max (max deepest (parent + 1).toNat) 1 else given
    let (l, s) ← readLines literal indent (s.size + 2) { breaks := breaks.toList } s
    return (l.finish header.chomp, s)

end Block
end Yaml
end KeyScript
