import KeyScript.CommandLine.Help
import KeyScript.Plan.Diff
import KeyScript.Plan.Listing
import KeyScript.Keyboard.Rehearsal
import KeyScript.Keyboard.Xdotool
import KeyScript.Program.Runner
import KeyScript.Report
import KeyScript.Script.Run
import KeyScript.Watch

/-!
What the program does: it runs a script, checks it once or whenever it changes,
or prints its plan. Flags go over the settings file, which goes over the
defaults.
-/

namespace KeyScript

def verbosityLevel (count : Int) (most : Bool) : Option Level :=
  if most || 2 ≤ count then some Level.debug
  else if count = 1 then some Level.info
  else none

/-- Whether output is coloured: on a terminal, unless a flag or the environment is against it. -/
def usesColours (terminal noColour : Bool) (environment : Text) : Bool :=
  terminal && !noColour && environment.isEmpty

structure Finish where
  /-- What it printed, the actions of a dry run apart. -/
  printed : Text := []
  log : Text := []
  failure : Failure := []
  events : List Event := []
  /-- The actions that went to a recorder. -/
  actions : List Action := []
  /-- Whether actions are printed. -/
  echoed : Bool := false
  /-- Whether failures are coloured. -/
  colours : Bool := false

namespace Finish

def output (f : Finish) : Text :=
  f.printed ++ (if f.echoed then Recorder.echo f.actions else [])

def errorOutput (f : Finish) : Text :=
  f.log ++ f.failure.report f.colours

def code (f : Finish) : Nat :=
  f.failure.exitCode

end Finish

structure Surroundings where
  disk : Disk
  /-- The home directory. -/
  home : Text
  /-- The rules of a recorder that takes the place of the keyboard the settings ask for. -/
  standIn : Option (List Rule) := none
  /-- Whether waits are noted. -/
  timed : Bool := true
  countdown : Countdown := none
  /-- What happens to the script's file while it is watched. -/
  events : List (FileEvent × Disk) := []
  /-- Whether the two outputs may be coloured. -/
  colourOut : Bool := false
  colourErr : Bool := false
  /-- What the completion of command lines does with the words given to it. -/
  completion : List Text → Finish := fun _ => {}

namespace Options

def delayOver (o : Options) (present : Int) : Except Failure Int :=
  match o.defaultDelay with
  | none => .ok present
  | some n =>
    if n < 0 then .error [.usage (utf8 "--default-delay must not be negative")]
    else if (maxMillis : Int) < n then
      .error [.usage (utf8 "--default-delay must not exceed " ++ Text.ofNat maxMillis)]
    else .ok n

/-- The settings of a run: those of the settings file, with the flags over them. -/
def settings (o : Options) (w : Surroundings) : Except Failure Settings :=
  match Settings.load w.disk w.home o.config with
  | .error fault => .error fault.failure
  | .ok s =>
    match o.delayOver s.defaultDelay with
    | .error f => .error f
    | .ok defaultDelay =>
      .ok {
        pause := o.pause.getD s.pause
        failSafe := (o.noFailSafe.map (!·)).getD s.failSafe
        defaultDelay
        logLevel := (verbosityLevel o.verbose o.vverbose).getD s.logLevel
        backend := if o.dryRun then Backend.dryRun else o.backend.getD s.backend }

end Options

inductive Outlet where
  | recorder (echoed : Bool)
  | desktop (injection : Injection)
deriving Repr

namespace Outlet

def ofSettings (s : Settings) (standIn : Bool) : Except Failure Outlet :=
  if standIn then .ok (.recorder false)
  else if s.backend = Backend.dryRun then .ok (.recorder true)
  else if s.backend = Backend.xdotool then
    .ok (.desktop { pause := s.pause, failSafe := s.failSafe })
  else .error [.usage (utf8 "unknown backend " ++ s.backend.quote)]

def isEchoed : Outlet → Bool
  | .recorder echoed => echoed
  | .desktop _ => false

def desk : Desk (Rehearsal (List Rule)) where
  run program arguments r :=
    match runProgram program arguments with
    | (printed, none) => (r, .ok printed)
    | (_, some f) => (r, .error f)
  sleep := Rehearsal.sleepUnseen

def host (outlet : Outlet) (timed : Bool) : Host (Rehearsal (List Rule)) :=
  let recording := Rehearsal.host Rule.guard .recorded timed true
  match outlet with
  | .recorder _ => recording
  | .desktop injection => { recording with keyboard := some (injection.perform desk) }

end Outlet

def Fault.toFailure : Fault → Failure
  | .failure f => f
  | .violation v => [.plain v.text]

namespace CommandLine

def findScript (w : Surroundings) (s : Settings) (path : Text) : Except Failure Script :=
  match Script.find w.disk path s.defaultDelay with
  | .ok script => .ok script
  | .error fault => .error (fault.failure path)

def prepare (w : Surroundings) (o : Options) (path : Text) :
    Except Failure (Settings × Script) :=
  match o.settings w with
  | .error f => .error f
  | .ok s =>
    match findScript w s path with
    | .error f => .error f
    | .ok script => .ok (s, script)

def runThrough (w : Surroundings) (s : Settings) (outlet : Outlet) (script : Script) : Finish :=
  let start : Rehearsal (List Rule) :=
    { recorder := { memory := w.standIn.getD [] }
      journal := { level := some s.logLevel }
      countdown := w.countdown }
  let ((_, r), fault) := script.run (outlet.host w.timed) w.disk start
  { log := r.journal.text
    failure := (fault.map Fault.toFailure).getD []
    events := r.events.toList
    actions := r.recorder.actions.toList
    echoed := outlet.isEchoed }

def run (w : Surroundings) (o : Options) (path : Text) : Finish :=
  match o.settings w with
  | .error f => { failure := f }
  | .ok s =>
    match Outlet.ofSettings s w.standIn.isSome with
    | .error f => { failure := f }
    | .ok outlet =>
      match findScript w s path with
      | .error f => { failure := f }
      | .ok script => runThrough w s outlet script

def logText (s : Settings) (records : List Record) : Text :=
  (Journal.noteAll { level := some s.logLevel } records).text

def loadAndPrint (w : Surroundings) (s : Settings) (script : Script) (present : Plan → Text) :
    Finish :=
  let r := Watch.reload script w.disk none
  let log := logText s r.loading
  match r.outcome with
  | .ok plan => { printed := present plan, log }
  | .error f => { log, failure := f }

def okLine (path : Text) (loaded : Loaded) : Text :=
  path ++ utf8 ": ok, " ++ Text.ofNat loaded.plan.steps.length ++ utf8 " statements, digest " ++
    shortened loaded.digest ++ [newline]

def againText (path : Text) (colours : Bool) (last : Plan) (loaded : Loaded) : Text :=
  path ++ utf8 ": reloaded, digest " ++ shortened loaded.digest ++ [newline] ++
    (Diff.ofPlans last loaded.plan).report colours

/-- What is printed about a load that follows the last good one, and the last good one after it. -/
def announce (path : Text) (colours : Bool) (last : Option Plan) (r : Reload) :
    Text × Option Plan :=
  match r.result, last with
  | .error f, last => (f.report colours, last)
  | .ok loaded, none => (okLine path loaded, some loaded.plan)
  | .ok loaded, some earlier => (againText path colours earlier loaded, some loaded.plan)

def announceAll (path : Text) (colours : Bool) (last : Option Plan) : List Reload → List Text
  | [] => []
  | r :: rest =>
    let (text, last) := announce path colours last r
    text :: announceAll path colours last rest

def watch (w : Surroundings) (s : Settings) (script : Script) (colours : Bool) : Finish :=
  let reloads := Watch.reloads script w.disk w.events
  { printed := (announceAll script.path colours none reloads).flatten
    log := logText s (Watch.startRecord script.path :: reloads.flatMap Reload.records) }

def check (w : Surroundings) (o : Options) (path : Text) : Finish :=
  match prepare w o path with
  | .error f => { failure := f }
  | .ok (s, script) =>
    if o.watch then watch w s script (w.colourOut && !o.noColour)
    else loadAndPrint w s script fun plan => okLine path (.ofPlan plan)

def planForm (format : Text) : Option (Plan → Text) :=
  if format = utf8 "text" then some Plan.listing
  else if format = utf8 "cbor" then some Plan.encode
  else none

def plan (w : Surroundings) (o : Options) (path : Text) : Finish :=
  match planForm o.format with
  | none =>
    { failure :=
        [.usage (utf8 "unknown format " ++ o.format.quote ++ utf8 " (want text or cbor)")] }
  | some form =>
    match prepare w o path with
    | .error f => { failure := f }
    | .ok (s, script) => loadAndPrint w s script form

def perform (w : Surroundings) : Invocation → Finish
  | .completion words => w.completion words
  | .help task => { printed := task.helpText }
  | .work task o path =>
    let finish :=
      match task with
      | .run => run w o path
      | .check => check w o path
      | .plan => plan w o path
      | .help => { printed := Task.help.helpText }
    { finish with colours := w.colourErr && !o.noColour }

end CommandLine

def Finish.ofWords (w : Surroundings) (words : List Text) : Finish :=
  match Invocation.ofWords words with
  | .error fault => { failure := fault.failure, colours := w.colourErr }
  | .ok invocation => CommandLine.perform w invocation

end KeyScript
