import KeyScript.Failure

/-!
Commands: what the lines of a script ask for. A command is a plain deed, or
repeats another command; the chain of repeated commands ends in a plain one.
-/

namespace KeyScript

inductive Deed where
  | comment (text : Text)
  | delay (ms : Nat)
  | setDefaultDelay (ms : Nat)
  | typeText (text : Text)
  | press (keys : List Text)
deriving DecidableEq, Repr

inductive Command where
  | plain (raw : Text) (line : Int) (deed : Deed)
  | again (raw : Text) (line : Int) (count : Nat) (target : Command)
deriving DecidableEq, Repr

inductive Verb where
  | comment
  | delay
  | setDefaultDelay
  | typeText
  | again
  | press
deriving DecidableEq, Repr

namespace Verb

def name : Verb → Text
  | .comment => utf8 "comment"
  | .delay => utf8 "delay"
  | .setDefaultDelay => utf8 "default-delay"
  | .typeText => utf8 "type"
  | .again => utf8 "repeat"
  | .press => utf8 "press"

def all : List Verb :=
  [.comment, .delay, .setDefaultDelay, .typeText, .again, .press]

/-- The name of the kind with a number; a number without a kind is shown as such. -/
def nameOf (n : Int) : Text :=
  match n with
  | .ofNat k =>
    match all[k]? with
    | some v => v.name
    | none => utf8 "verb(" ++ Text.ofInt n ++ utf8 ")"
  | .negSucc _ => utf8 "verb(" ++ Text.ofInt n ++ utf8 ")"

end Verb

namespace Deed

def verb : Deed → Verb
  | .comment _ => .comment
  | .delay _ => .delay
  | .setDefaultDelay _ => .setDefaultDelay
  | .typeText _ => .typeText
  | .press _ => .press

def text : Deed → Text
  | .comment t | .typeText t => t
  | _ => []

def millis : Deed → Nat
  | .delay ms | .setDefaultDelay ms => ms
  | _ => 0

def keys : Deed → List Text
  | .press ks => ks
  | _ => []

end Deed

namespace Command

def raw : Command → Text
  | .plain raw _ _ | .again raw _ _ _ => raw

def line : Command → Int
  | .plain _ line _ | .again _ line _ _ => line

def verb : Command → Verb
  | .plain _ _ deed => deed.verb
  | .again .. => .again

def text : Command → Text
  | .plain _ _ deed => deed.text
  | .again .. => []

def millis : Command → Nat
  | .plain _ _ deed => deed.millis
  | .again .. => 0

def count : Command → Nat
  | .plain .. => 0
  | .again _ _ n _ => n

def keys : Command → List Text
  | .plain _ _ deed => deed.keys
  | .again .. => []

def target? : Command → Option Command
  | .plain .. => none
  | .again _ _ _ target => some target

/-- Only comments never wait for the default delay. -/
def skipsDelay (c : Command) : Bool :=
  c.verb == .comment

/-- The target of a repetition with nothing before it. -/
def nothing : Command :=
  .plain [] noLine (.comment [])

def describe (c : Command) : Text :=
  linePrefix c.line ++ c.raw.quote

end Command

end KeyScript
