import KeyScript.Keyboard.Rehearsal
import KeyScript.Keyboard.Xdotool

/-!
A display made up for rehearsals: it answers the two queries with texts given
beforehand, can fail on one kind of call, and keeps every call.
-/

namespace KeyScript

structure Answers where
  geometry : Text := []
  pointer : Text := []
  /-- The first argument of the calls that fail; empty when none does. -/
  failOn : Text := []
  error : Text := []
deriving Repr

structure Display where
  answers : Answers
  calls : Array (List Text) := #[]
  countdown : Countdown := none
deriving Repr

namespace Display

def answer (a : Answers) (arguments : List Text) : Except Failure Text :=
  let first := arguments.headD []
  if !a.failOn.isEmpty && !arguments.isEmpty && first == a.failOn then .error [.plain a.error]
  else if first = utf8 "getdisplaygeometry" then .ok a.geometry
  else if first = utf8 "getmouselocation" then .ok a.pointer
  else .ok []

def desk : Desk Display where
  run program arguments d :=
    ({ d with calls := d.calls.push (program :: arguments) }, answer d.answers arguments)
  sleep _ d := (d, d.countdown.failure)

end Display
end KeyScript
