import KeyScript.Failure

/-!
Input actions, and the waits between them: all that a running script does to
the outside.
-/

namespace KeyScript

inductive Action where
  /-- Keys pressed together in order and released in reverse order. -/
  | hotkey (keys : List Text)
  /-- Text typed character by character. -/
  | type (text : Text)
deriving DecidableEq, Repr

namespace Action

def kind : Action → Text
  | .hotkey _ => utf8 "hotkey"
  | .type _ => utf8 "type"

def keys : Action → List Text
  | .hotkey ks => ks
  | .type _ => []

def text : Action → Text
  | .hotkey _ => []
  | .type t => t

def chord (keys : List Text) : Text :=
  Text.join (utf8 "+") keys

def describe : Action → Text
  | .hotkey ks => utf8 "hotkey " ++ chord ks
  | .type t => utf8 "type " ++ t.quote

def kindOf (n : Int) : Text :=
  if n = 0 then utf8 "hotkey" else if n = 1 then utf8 "type" else utf8 "unknown"

def describeAs (n : Int) (keys : List Text) (text : Text) : Text :=
  kindOf n ++ utf8 " " ++ (if n = 1 then text.quote else chord keys)

end Action

abbrev Nanos := Int

/-- The length of a wait given in milliseconds, within 64 bits. -/
def nanosOfMillis (ms : Int) : Nanos :=
  wrap64 (ms * 1000000)

inductive Event where
  | sleep (length : Nanos)
  | act (action : Action)
deriving DecidableEq, Repr

def describeSleep (length : Nanos) : Text :=
  utf8 "sleep " ++ Text.ofInt (length.tdiv 1000000)

def Event.describe : Event → Text
  | .sleep length => describeSleep length
  | .act action => action.describe

end KeyScript
