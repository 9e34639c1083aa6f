import KeyScript.Command.Parse
import KeyScript.Keyboard.Action
import KeyScript.Journal

/-!
Running commands. A host gives them a clock, a keyboard and a log; it keeps a state
of its own through the run. Each command first waits for the default delay,
unless it is a comment, and then acts; a repetition waits once for all its
rounds. The first failure ends the run and is attributed to one command.
-/

namespace KeyScript

/-- What commands act on. Each operation gives the state after it and why it failed, if it did. -/
structure Host (σ : Type) where
  sleep : Nanos → σ → σ × Option Failure
  keyboard : Option (Action → σ → σ × Option Failure)
  note : Record → σ → σ

inductive Fault where
  | failure (f : Failure)
  | violation (v : Violation)
deriving DecidableEq, Repr

/-- The default delay that all commands of a script share, and the state of the host. -/
structure Machine (σ : Type) where
  delay : Int
  host : σ

/-- Where a run got to, and why it stopped early, if it did. -/
abbrev Outcome (σ : Type) := Machine σ × Option Fault

/-- The failure of a command. A failure that is attributed already passes unchanged. -/
def attributed (c : Command) (f : Failure) : Failure :=
  if f.any Layer.isExecution then f else .execution c.line c.raw :: f

def checkedDelay (ms : Int) : Except Violation Int :=
  match requireNonNegative ms (utf8 "default delay") with
  | .ok () => .ok ms
  | .error v => .error v

namespace Command

def startRecord (c : Command) : Record :=
  ⟨.debug, utf8 "executing",
    [(utf8 "line", Text.ofInt c.line), (utf8 "raw", c.raw), (utf8 "verb", c.verb.name)]⟩

def delayRecord (c : Command) (ms : Int) : Record :=
  ⟨.debug, utf8 "default delay", [(utf8 "line", Text.ofInt c.line), (utf8 "ms", Text.ofInt ms)]⟩

def place (c : Command) : List (Text × Text) :=
  [(utf8 "line", Text.ofInt c.line), (utf8 "raw", c.raw)]

def turnRecord (c : Command) : Record :=
  ⟨.info, utf8 "running line", c.place⟩

def failureRecord (path : Text) (c : Command) (f : Failure) : Record :=
  ⟨.error, utf8 "execution failed",
    (utf8 "path", path) :: c.place ++ [(utf8 "error", f.message)]⟩

end Command

def missingKeyboard : Violation :=
  ⟨.precondition, utf8 "port must not be nil"⟩

def repeatUntilFault {σ : Type} (step : Machine σ → Outcome σ) : Nat → Machine σ → Outcome σ
  | 0, m => (m, none)
  | n + 1, m =>
    match step m with
    | (m, none) => repeatUntilFault step n m
    | (m, some fault) => (m, some fault)

section

variable {σ : Type} (host : Host σ)

def Machine.note (m : Machine σ) (r : Record) : Machine σ :=
  { m with host := host.note r m.host }

def waitFor (c : Command) (ms : Int) (m : Machine σ) : Outcome σ :=
  match host.sleep (nanosOfMillis ms) m.host with
  | (s, none) => ({ m with host := s }, none)
  | (s, some f) => ({ m with host := s }, some (.failure (attributed c f)))

def performFor (c : Command) (action : Action) (m : Machine σ) : Outcome σ :=
  match host.keyboard with
  | none => (m, some (.violation missingKeyboard))
  | some perform =>
    match perform action m.host with
    | (s, none) => ({ m with host := s }, none)
    | (s, some f) => ({ m with host := s }, some (.failure (attributed c f)))

def doDeed (c : Command) (m : Machine σ) : Deed → Outcome σ
  | .comment _ => (m, none)
  | .delay ms => waitFor host c ms m
  | .setDefaultDelay ms =>
    match checkedDelay ms with
    | .ok delay => ({ m with delay := delay }, none)
    | .error v => (m, some (.violation v))
  | .typeText text => performFor host c (.type text) m
  | .press keys => performFor host c (.hotkey keys) m

def waitBefore (c : Command) (suppressed : Bool) (m : Machine σ) : Outcome σ :=
  let m := m.note host c.startRecord
  if suppressed || c.skipsDelay then (m, none)
  else waitFor host c m.delay (m.note host (c.delayRecord m.delay))

/-- Runs a command; `suppressed` leaves out its wait for the default delay. -/
def Command.execute (suppressed : Bool) : Command → Machine σ → Outcome σ
  | .plain raw line deed, m =>
    match waitBefore host (.plain raw line deed) suppressed m with
    | (m, none) => doDeed host (.plain raw line deed) m deed
    | stopped => stopped
  | .again raw line count target, m =>
    match waitBefore host (.again raw line count target) suppressed m with
    | (m, none) => repeatUntilFault (fun m => Command.execute true target m) count m
    | stopped => stopped

/-- Runs commands in order up to the first failure, which is logged under `path`. -/
def runAll (path : Text) : List Command → Machine σ → Outcome σ
  | [], m => (m, none)
  | c :: rest, m =>
    match c.execute host false (m.note host c.turnRecord) with
    | (m, none) => runAll path rest m
    | (m, some (.failure f)) => (m.note host (c.failureRecord path f), some (.failure f))
    | stopped => stopped

end

end KeyScript
