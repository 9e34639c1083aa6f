import KeyScript.Command.Basic
import KeyScript.Key.Suggest
import KeyScript.Text.Blank
import KeyScript.Violation

/-!
Reading a line as a statement. The first word, up to a single space, decides:
a verb takes the rest of the line as its argument, anything else makes the
whole line a key press.
-/

namespace KeyScript

/-- The longest wait in milliseconds whose length in nanoseconds fits 64 bits. -/
def maxMillis : Nat := 9223372036854

inductive CountFault where
  | number (fault : NumberFault) (source : Text)
  | negative
  | tooLarge
deriving DecidableEq, Repr

namespace CountFault

def message : CountFault → Text
  | .number fault source => fault.message (utf8 "strconv.Atoi") source
  | .negative => utf8 "must not be negative"
  | .tooLarge => utf8 "must not exceed " ++ Text.ofNat maxMillis

end CountFault

/-- A decimal number from 0 to the longest wait, white space around it ignored. -/
def readCount (argument : Text) : Except CountFault Nat :=
  let digits := argument.trim
  match digits.readDecimal with
  | .error fault => .error (.number fault digits)
  | .ok n =>
    if n < 0 then .error .negative
    else if (maxMillis : Int) < n then .error .tooLarge
    else .ok n.toNat

inductive Problem where
  | blank
  | unknownWord (word : Text)
  | unknownKey (word : Text)
  | badMillis (word : Text) (fault : CountFault)
  | badCount (word : Text) (fault : CountFault)
  | scriptOnly (word : Text)
deriving DecidableEq, Repr

namespace Problem

def message : Problem → Text
  | .blank => utf8 "empty statement"
  | .unknownWord _ => utf8 "unrecognized verb or key"
  | .unknownKey _ => utf8 "unrecognized key"
  | .badMillis _ _ => utf8 "invalid milliseconds for"
  | .badCount _ _ => utf8 "invalid count for"
  | .scriptOnly _ => utf8 "script-only statement"

def word : Problem → Text
  | .blank => []
  | .unknownWord w | .unknownKey w | .badMillis w _ | .badCount w _ | .scriptOnly w => w

def suggestions : Problem → List Text
  | .unknownWord w | .unknownKey w => suggest w
  | _ => []

def cause : Problem → Failure
  | .badMillis _ fault | .badCount _ fault => [.plain fault.message]
  | _ => []

end Problem

structure ParseError where
  line : Int
  raw : Text
  problem : Problem
deriving DecidableEq, Repr

def ParseError.failure (e : ParseError) : Failure :=
  .parse e.line e.raw e.problem.word e.problem.message e.problem.suggestions :: e.problem.cause

inductive Keyword where
  | rem
  | defaultDelay
  | delay
  | string
  | again
deriving DecidableEq, Repr

def keyword? (word : Text) : Option Keyword :=
  if word = utf8 "REM" then some .rem
  else if word = utf8 "DEFAULT_DELAY" then some .defaultDelay
  else if word = utf8 "DELAY" then some .delay
  else if word = utf8 "STRING" then some .string
  else if word = utf8 "REPEAT" then some .again
  else none

inductive Statement where
  | plain (deed : Deed)
  | again (count : Nat)
deriving DecidableEq, Repr

/-- The keys of the words, or the leftmost word that names no keys. -/
def readKeys : List Text → Except Text (List Text)
  | [] => .ok []
  | word :: rest =>
    match keysOf word with
    | none => .error word
    | some keys =>
      match readKeys rest with
      | .error bad => .error bad
      | .ok more => .ok (keys ++ more)

/-- Reads a trimmed line. Outside a script nothing can be repeated and there is no default delay
to set. -/
def Statement.read (inScript : Bool) (text : Text) : Except Problem Statement :=
  let (word, after) := text.cut 32
  let argument := after.getD []
  if !isRecognized word then .error (.unknownWord word)
  else
    match keyword? (canonical word) with
    | some .rem => .ok (.plain (.comment argument))
    | some .string => .ok (.plain (.typeText argument))
    | some .delay =>
      match readCount argument with
      | .error fault => .error (.badMillis word fault)
      | .ok ms => .ok (.plain (.delay ms))
    | some .defaultDelay =>
      if !inScript then .error (.scriptOnly word)
      else
        match readCount argument with
        | .error fault => .error (.badMillis word fault)
        | .ok ms => .ok (.plain (.setDefaultDelay ms))
    | some .again =>
      if !inScript then .error (.scriptOnly word)
      else
        match readCount argument with
        | .error fault => .error (.badCount word fault)
        | .ok n => .ok (.again n)
    | none =>
      match readKeys text.fields with
      | .error bad => .error (.unknownKey bad)
      | .ok keys => .ok (.plain (.press keys))

inductive ParseFault where
  | rejected (e : ParseError)
  | violation (v : Violation)
deriving DecidableEq, Repr

def previous (recent : List Command) (line : Int) : Except Violation (Option Command) :=
  match require .precondition (0 ≤ line)
      (utf8 "line must not be negative, got " ++ Text.ofInt line) with
  | .error v => .error v
  | .ok () => .ok (recent.find? fun c => c.line < line)

namespace Command

/-- Reads a line as a command. `before` holds the commands a repetition can refer to, latest
first; without a script there are none. -/
def parse (raw : Text) (line : Int) (before : Option (List Command)) :
    Except ParseFault Command :=
  let text := raw.trim
  if text.isEmpty then .error (.rejected ⟨line, raw, .blank⟩)
  else
    match Statement.read before.isSome text with
    | .error problem => .error (.rejected ⟨line, text, problem⟩)
    | .ok (.plain deed) => .ok (.plain text line deed)
    | .ok (.again count) =>
      match previous (before.getD []) line with
      | .error v => .error (.violation v)
      | .ok target => .ok (.again text line count (target.getD nothing))

end Command

end KeyScript
