import KeyScript.Keyboard.Rehearsal
import KeyScript.Script.Run

/-!
Sessions: a script in a tree of files, worked on by requests. Each request is
answered; a failure is an answer too, and the session goes on.
-/

namespace KeyScript

inductive Request where
  | load
  | loadFrom (source : Source)
  | run
  /-- Runs one loaded command, with or without a keyboard. -/
  | execute (index : Nat) (withKeyboard : Bool)
  | parse (raw : Text) (line : Int)
  /-- Reads a line and runs what it asks for. -/
  | parseAndExecute (raw : Text) (line : Int)
  | setDelay (ms : Int)
  | previous (line : Int)
  | commands
  | writeFile (path : Option Text) (content : Text)
  | makeDirectory (path : Option Text)
  | remove (path : Option Text)
  | setRules (rules : List Rule)
  | actions
  | forgetActions
  /-- Does nothing. -/
  | rest
deriving Repr

inductive Reply where
  | done
  | failed (fault : Fault)
  | command (c : Command)
  | noCommand
  | commands (cs : List Command)
  | actions (as : List Action)
deriving Repr

/-- The script, the files around it, and what its runs have done. -/
structure Session where
  files : Files
  script : Script
  rehearsal : Rehearsal (List Rule)
  /-- Where the actions of a run go. -/
  stage : Stage := .recorded
  /-- Whether the waits of a run are noted. -/
  timed : Bool := true
  /-- Whether the waits of single commands are noted. -/
  timedCommands : Bool := true

namespace Session

def replyOf : Option Fault → Reply
  | none => .done
  | some fault => .failed fault

def faultOf : ParseFault → Fault
  | .rejected e => .failure e.failure
  | .violation v => .violation v

def runHost (s : Session) : Host (Rehearsal (List Rule)) :=
  Rehearsal.host Rule.guard s.stage s.timed true

/-- The host of a single command, which keeps no log. -/
def commandHost (s : Session) (withKeyboard : Bool) : Host (Rehearsal (List Rule)) :=
  Rehearsal.host Rule.guard (if withKeyboard then .recorded else .missing) s.timedCommands false

def after (s : Session) : (Script × Rehearsal (List Rule)) × Option Fault → Session × Reply
  | ((script, rehearsal), fault) =>
    ({ s with script := script, rehearsal := rehearsal }, replyOf fault)

def executeOne (s : Session) (c : Command) (withKeyboard : Bool) : Session × Reply :=
  s.after (s.script.execute (s.commandHost withKeyboard) c s.rehearsal)

def handle (s : Session) : Request → Session × Reply
  | .load => s.after (s.script.loadNoting s.runHost s.files.stat s.rehearsal)
  | .loadFrom source => s.after (s.script.loadFromNoting s.runHost source s.rehearsal)
  | .run => s.after (s.script.run s.runHost s.files.stat s.rehearsal)
  | .execute index withKeyboard =>
    match s.script.commands[index]? with
    | some c => s.executeOne c withKeyboard
    | none => (s, .noCommand)
  | .parse raw line =>
    match s.script.parse raw line with
    | .ok c => (s, .command c)
    | .error fault => (s, .failed (faultOf fault))
  | .parseAndExecute raw line =>
    match s.script.parse raw line with
    | .ok c => s.executeOne c true
    | .error fault => (s, .failed (faultOf fault))
  | .setDelay ms =>
    match s.script.setDelay ms with
    | .ok script => ({ s with script := script }, .done)
    | .error v => (s, .failed (.violation v))
  | .previous line =>
    match s.script.previous line with
    | .ok (some c) => (s, .command c)
    | .ok none => (s, .noCommand)
    | .error v => (s, .failed (.violation v))
  | .commands => (s, .commands s.script.commands)
  | .writeFile path content =>
    ({ s with files := s.files.addFile (path.getD s.script.path) content }, .done)
  | .makeDirectory path =>
    ({ s with files := s.files.addDirectory (path.getD s.script.path) }, .done)
  | .remove path => ({ s with files := s.files.remove (path.getD s.script.path) }, .done)
  | .setRules rules =>
    ({ s with rehearsal :=
        { s.rehearsal with recorder := { s.rehearsal.recorder with memory := rules } } }, .done)
  | .actions => (s, .actions s.rehearsal.recorder.actions.toList)
  | .forgetActions =>
    ({ s with rehearsal := { s.rehearsal with recorder := s.rehearsal.recorder.reset } }, .done)
  | .rest => (s, .done)

def fresh (s : Session) (countdown : Countdown) : Session :=
  { s with rehearsal := { s.rehearsal with
      events := #[], journal := { s.rehearsal.journal with records := #[] },
      countdown := countdown } }

end Session
end KeyScript
