import KeyScript.Text.Blank
import KeyScript.Text.Number
import KeyScript.Text.Letter

/-!
The log: records with a level, a message and named values. A journal keeps the
records at or above its level; a record is written as one line of `name=value`
pairs.
-/

namespace KeyScript

/-- The importance of a record; the named levels are four apart. -/
abbrev Level := Int

namespace Level

def debug : Level := -4
def info : Level := 0
def warn : Level := 4
def error : Level := 8

def withOffset (name : Text) (offset : Int) : Text :=
  if offset = 0 then name else name ++ Text.ofSigned offset

/-- The name of the next named level below or at `l`, and how far `l` is above it; levels below
all names count from the lowest. -/
def name (l : Level) : Text :=
  if l < info then withOffset (utf8 "DEBUG") (wrap64 (l - debug))
  else if l < warn then withOffset (utf8 "INFO") (l - info)
  else if l < error then withOffset (utf8 "WARN") (l - warn)
  else withOffset (utf8 "ERROR") (l - error)

inductive Fault where
  | unknownName
  | badOffset (fault : NumberFault) (offset : Text)
deriving DecidableEq, Repr

def Fault.message (source : Text) : Fault → Text
  | .unknownName => utf8 "slog: level string " ++ source.quote ++ utf8 ": unknown name"
  | .badOffset fault offset =>
    utf8 "slog: level string " ++ source.quote ++ utf8 ": " ++
      fault.message (utf8 "strconv.Atoi") offset

def named (word : Text) : Option Level :=
  let w := word.upper
  if w = utf8 "DEBUG" then some debug
  else if w = utf8 "INFO" then some info
  else if w = utf8 "WARN" then some warn
  else if w = utf8 "ERROR" then some error
  else none

/-- Reads a level: a name in any case, optionally with an offset such as `+2`. -/
def read (source : Text) : Except Fault Level :=
  let word := source.takeWhile fun b => b != 43 && b != 45
  let offset := source.dropWhile fun b => b != 43 && b != 45
  match (if offset.isEmpty then Except.ok 0 else Text.readDecimal offset) with
  | .error fault => .error (.badOffset fault offset)
  | .ok n =>
    match named word with
    | some level => .ok (wrap64 (level + n))
    | none => .error .unknownName

end Level

structure Record where
  level : Level
  message : Text
  values : List (Text × Text)
deriving DecidableEq, Repr

def unsafeByte (b : UInt8) : Bool :=
  b ≤ 32 || b == 61 || b == 34

/-- Whether a value must be quoted: it is empty, or holds a glyph that would end or blur it. -/
def needsQuotes (t : Text) : Bool :=
  t.isEmpty || t.glyphs.any fun
    | .stray _ => true
    | .char c =>
      if c.toNat < 0x80 then unsafeByte c.toNat.toUInt8
      else c == '\uFFFD' || isBlankChar c || !isPrintable c

def logValue (t : Text) : Text :=
  if needsQuotes t then t.quote else t

namespace Record

def line (r : Record) : Text :=
  let pairs := (utf8 "level", r.level.name) :: (utf8 "msg", r.message) :: r.values
  Text.join (utf8 " ") (pairs.map fun (name, value) => name ++ utf8 "=" ++ logValue value) ++
    [newline]

end Record

/-- The records kept so far, and the least level that is kept; no level keeps nothing. -/
structure Journal where
  level : Option Level := none
  records : Array Record := #[]
deriving Repr

namespace Journal

def note (j : Journal) (r : Record) : Journal :=
  match j.level with
  | some least => if least ≤ r.level then { j with records := j.records.push r } else j
  | none => j

def noteAll (j : Journal) (rs : List Record) : Journal :=
  rs.foldl note j

def text (j : Journal) : Text :=
  j.records.toList.flatMap Record.line

end Journal

end KeyScript
