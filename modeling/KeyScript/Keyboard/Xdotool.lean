import KeyScript.Key.Keysym
import KeyScript.Keyboard.Action
import KeyScript.Script.Source

/-!
The keyboard that drives a display through the program xdotool. Before every action
the fail-safe asks for the size of the screen and the place of the pointer, and
refuses the action when the pointer sits in a corner or cannot be found.
-/

namespace KeyScript

/-- The outside as this keyboard uses it: programs that can be run, and time that can pass. -/
structure Desk (σ : Type) where
  /-- Runs a program with arguments, and gives what it printed. -/
  run : Text → List Text → σ → σ × Except Failure Text
  sleep : Nanos → σ → σ × Option Failure

structure Injection where
  binary : Text := utf8 "xdotool"
  /-- How long to wait after every action. -/
  pause : Nanos := 0
  failSafe : Bool := true
deriving Repr

def readGeometry (printed : Text) : Option (Int × Int) :=
  match printed.fields with
  | [w, h] =>
    match Text.readDecimal w, Text.readDecimal h with
    | .ok width, .ok height => some (width, height)
    | _, _ => none
  | _ => none

def readAssignment (line : Text) : Option (Text × Int) :=
  match line.trim.cut 61 with
  | (name, some value) =>
    match Text.readDecimal value with
    | .ok n => some (name, n)
    | .error _ => none
  | (_, none) => none

/-- The least length of a line that ends the reading of the pointer's place. -/
def pointerLineLimit : Nat := 65536

structure Sighting where
  x : Option Int := none
  y : Option Int := none
deriving Repr

namespace Sighting

/-- Takes a line into account. A later number replaces an earlier one, and a line that assigns
nothing to `X` or `Y` changes nothing. -/
def read (s : Sighting) (line : Text) : Sighting :=
  match readAssignment line with
  | none => s
  | some (name, n) =>
    if name = utf8 "X" then { s with x := some n }
    else if name = utf8 "Y" then { s with y := some n }
    else s

def place (s : Sighting) : Option (Int × Int) :=
  match s.x, s.y with
  | some x, some y => some (x, y)
  | _, _ => none

end Sighting

def readPointer (printed : Text) : Option (Int × Int) :=
  ((linesWithin pointerLineLimit printed).foldl Sighting.read {}).place

def inCorner (x y width height : Int) : Bool :=
  (x == 0 || x == wrap64 (width - 1)) && (y == 0 || y == wrap64 (height - 1))

/-- The arguments that perform an action; none for an action that does nothing. -/
def Action.arguments : Action → Option (List Text)
  | .hotkey [] => none
  | .hotkey keys =>
    some [utf8 "key", utf8 "--clearmodifiers", Text.join (utf8 "+") (keys.map Key.keysym)]
  | .type text =>
    if text.isEmpty then none
    else some [utf8 "type", utf8 "--delay", utf8 "0", utf8 "--", text]

namespace Injection

variable {σ : Type} (desk : Desk σ) (i : Injection)

def checkPointer (width height : Int) (s : σ) : σ × Option Failure :=
  match desk.run i.binary [utf8 "getmouselocation", utf8 "--shell"] s with
  | (s, .error e) => (s, some (.during (utf8 "fail-safe: mouse location") :: e))
  | (s, .ok printed) =>
    match readPointer printed with
    | none =>
      (s, some [.during (utf8 "fail-safe"),
        .plain (utf8 "unexpected mouse location " ++ printed.trim.quote)])
    | some (x, y) => (s, if inCorner x y width height then some [.failSafe] else none)

/-- The fail-safe: passes only when the pointer is known not to be in a corner. -/
def check (s : σ) : σ × Option Failure :=
  match desk.run i.binary [utf8 "getdisplaygeometry"] s with
  | (s, .error e) => (s, some (.during (utf8 "fail-safe: display geometry") :: e))
  | (s, .ok printed) =>
    match readGeometry printed with
    | none =>
      (s, some [.plain (utf8 "fail-safe: unexpected display geometry " ++ printed.trim.quote)])
    | some (width, height) => checkPointer desk i width height s

def inject (arguments : List Text) (s : σ) : σ × Option Failure :=
  match desk.run i.binary arguments s with
  | (s, .error e) => (s, some e)
  | (s, .ok _) => desk.sleep i.pause s

def perform (action : Action) (s : σ) : σ × Option Failure :=
  match action.arguments with
  | none => (s, none)
  | some arguments =>
    if i.failSafe then
      match check desk i s with
      | (s, none) => inject desk i arguments s
      | (s, some f) => (s, some f)
    else inject desk i arguments s

end Injection
end KeyScript
