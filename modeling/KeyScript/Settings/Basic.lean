import KeyScript.Journal
import KeyScript.Number.Duration

/-!
The settings of a run, and what a settings file asks to change in them.
-/

namespace KeyScript

namespace Backend

def xdotool : Text := utf8 "xdotool"

def dryRun : Text := utf8 "dry-run"

end Backend

/-- The values a run works with; those here hold when nothing else is asked for. -/
structure Settings where
  /-- How long to wait after each action. -/
  pause : Nanos := 0
  /-- Whether the pointer in a corner of the screen stops the run. -/
  failSafe : Bool := true
  /-- The wait before each command, in milliseconds. -/
  defaultDelay : Int := 0
  logLevel : Level := Level.warn
  backend : Text := Backend.xdotool
deriving DecidableEq, Repr

/-- What a settings file asks for. An empty text and a missing value ask for nothing. -/
structure Overrides where
  version : Text := []
  pause : Text := []
  failSafe : Option Bool := none
  defaultDelay : Option Int := none
  logLevel : Text := []
  backend : Text := []
deriving DecidableEq, Repr

inductive OverrideFault where
  | pause (source : Text) (fault : DurationFault)
  | logLevel (source : Text) (fault : Level.Fault)
deriving DecidableEq, Repr

def OverrideFault.message : OverrideFault → Text
  | .pause source fault => utf8 "pause: " ++ fault.message source
  | .logLevel source fault => utf8 "log_level: " ++ fault.message source

namespace Overrides

def pauseOver (o : Overrides) (present : Nanos) : Except OverrideFault Nanos :=
  if o.pause.isEmpty then .ok present
  else
    match Duration.read o.pause with
    | .ok d => .ok d
    | .error fault => .error (.pause o.pause fault)

def logLevelOver (o : Overrides) (present : Level) : Except OverrideFault Level :=
  if o.logLevel.isEmpty then .ok present
  else
    match Level.read o.logLevel with
    | .ok l => .ok l
    | .error fault => .error (.logLevel o.logLevel fault)

/-- Changes settings field by field, and stops at the first field that cannot be read. -/
def apply (o : Overrides) (s : Settings) : Settings × Option OverrideFault :=
  match o.pauseOver s.pause with
  | .error fault => (s, some fault)
  | .ok pause =>
    let s : Settings :=
      { s with
        pause
        failSafe := o.failSafe.getD s.failSafe
        defaultDelay := o.defaultDelay.getD s.defaultDelay }
    match o.logLevelOver s.logLevel with
    | .error fault => (s, some fault)
    | .ok logLevel =>
      ({ s with logLevel, backend := if o.backend.isEmpty then s.backend else o.backend }, none)

end Overrides
end KeyScript
