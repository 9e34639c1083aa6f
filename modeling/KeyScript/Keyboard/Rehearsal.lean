import KeyScript.Keyboard.Recorder
import KeyScript.Run

/-!
A host for rehearsals: actions go to a recorder, waits are noted instead of
waited for, and both are kept in one sequence of events. A rehearsal can be
called off, before it starts or by a wait.
-/

namespace KeyScript

/-- How many more waits there are until a run is called off; none for a run that never is. -/
abbrev Countdown := Option Nat

namespace Countdown

def tick : Countdown → Countdown
  | some (n + 1) => some n
  | c => c

def isOver (c : Countdown) : Bool :=
  c == some 0

def failure (c : Countdown) : Option Failure :=
  if c.isOver then some [.canceled] else none

end Countdown

structure Rehearsal (μ : Type) where
  recorder : Recorder μ
  journal : Journal := {}
  events : Array Event := #[]
  countdown : Countdown := none

inductive Stage where
  /-- To the recorder, where they become events. -/
  | recorded
  /-- To a recorder of their own that nobody looks at. -/
  | unseen
  | missing
deriving DecidableEq, Repr

namespace Rehearsal

variable {μ : Type}

def sleep (length : Nanos) (r : Rehearsal μ) : Rehearsal μ × Option Failure :=
  let countdown := r.countdown.tick
  ({ r with events := r.events.push (.sleep length), countdown := countdown }, countdown.failure)

def sleepUnseen (_ : Nanos) (r : Rehearsal μ) : Rehearsal μ × Option Failure :=
  (r, r.countdown.failure)

def perform (guard : Guard μ) (action : Action) (r : Rehearsal μ) : Rehearsal μ × Option Failure :=
  match r.recorder.record guard r.countdown.isOver action with
  | (recorder, none) =>
    ({ r with recorder := recorder, events := r.events.push (.act action) }, none)
  | (recorder, some refusal) => ({ r with recorder := recorder }, some refusal)

def performUnseen (_ : Action) (r : Rehearsal μ) : Rehearsal μ × Option Failure :=
  (r, r.countdown.failure)

/-- The host of a rehearsal. Waits are noted when it is `timed`, and the log is kept when it is
`noted`. -/
def host (guard : Guard μ) (stage : Stage) (timed noted : Bool) : Host (Rehearsal μ) where
  sleep := if timed then sleep else sleepUnseen
  keyboard :=
    match stage with
    | .recorded => some (perform guard)
    | .unseen => some performUnseen
    | .missing => none
  note record r := if noted then { r with journal := r.journal.note record } else r

end Rehearsal
end KeyScript
