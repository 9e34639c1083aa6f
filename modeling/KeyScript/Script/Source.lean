import KeyScript.Command.Parse

/-!
The text of a script and the commands in it. Lines are split at line feeds;
blank lines count but give no command. The first line that is too long or is
not a statement decides, and a reader that failed is reported only when every
line it gave was good.
-/

namespace KeyScript

/-- The lines of a text: one for each line feed, and one more when text follows the last. -/
def physicalLines (t : Text) : List Text :=
  let parts := t.split newline
  if parts.getLast? == some [] then parts.dropLast else parts

def dropReturn (line : Text) : Text :=
  if line.getLast? == some 13 then line.dropLast else line

/-- The lines before the first one of `limit` bytes or more. -/
def linesWithin (limit : Nat) (t : Text) : List Text :=
  ((physicalLines t).takeWhile fun line => line.length < limit).map dropReturn

def hasLineOver (limit : Nat) (t : Text) : Bool :=
  (physicalLines t).any fun line => limit ≤ line.length

/-- The least length of a line that is too long. -/
def lineLimit : Nat := 1048576

/-- Script text, and why reading stopped behind it if that was not its end. The end, or the failure,
comes by a read of its own, after all of the text. -/
structure Source where
  text : Text
  broken : Option Failure := none
deriving Repr

inductive LoadFault where
  | parse (e : ParseError)
  | violation (v : Violation)
  | lineTooLong
  | readFailed (cause : Failure)
  | notOpened (cause : Failure)
deriving DecidableEq, Repr

def LoadFault.failure (path : Text) : LoadFault → Failure
  | .parse e => e.failure
  | .violation v => [.plain v.text]
  | .lineTooLong =>
    [.during (utf8 "reading script " ++ path), .plain (utf8 "bufio.Scanner: token too long")]
  | .readFailed cause => .during (utf8 "reading script " ++ path) :: cause
  | .notOpened cause => .path path (utf8 "cannot be opened") :: cause

def LoadFault.ofParse : ParseFault → LoadFault
  | .rejected e => .parse e
  | .violation v => .violation v

/-- Reads lines from number `n` on; `recent` holds the commands so far, latest first. -/
def readLines (n : Nat) (recent : List Command) : List Text → Except LoadFault (List Command)
  | [] => .ok recent.reverse
  | line :: rest =>
    let text := line.trim
    if text.isEmpty then readLines (n + 1) recent rest
    else
      match Command.parse text n (some recent) with
      | .ok c => readLines (n + 1) (c :: recent) rest
      | .error fault => .error (.ofParse fault)

namespace Source

def lines (s : Source) : List Text :=
  linesWithin lineLimit s.text

def fault (s : Source) : Option LoadFault :=
  if hasLineOver lineLimit s.text then some .lineTooLong else s.broken.map .readFailed

/-- The commands of a script, one for each line that is not blank. -/
def commands (s : Source) : Except LoadFault (List Command) :=
  match readLines 0 [] s.lines with
  | .error fault => .error fault
  | .ok cs =>
    match s.fault with
    | some fault => .error fault
    | none => .ok cs

end Source

end KeyScript
