import KeyScript.Text.Number
import KeyScript.Key.Resolve

/-!
Failures reported to a person. A failure is a chain of layers, the outermost
first: each layer says what was being done when the layers behind it went
wrong. What a failure is, is decided by the first layer of a kind in the chain.
-/

namespace KeyScript

/-- The line number of a command outside any script. -/
def noLine : Int := -1

inductive Layer where
  /-- A line that could not be read as a statement. -/
  | parse (line : Int) (raw token message : Text) (suggestions : List Text)
  /-- A command that failed while running. -/
  | execution (line : Int) (raw : Text)
  /-- A script path that cannot be loaded. -/
  | path (path reason : Text)
  /-- A settings file that cannot be used. -/
  | settings (path : Text)
  | aliasLookup (word reason : Text)
  /-- A bad flag value or combination of arguments. -/
  | usage (message : Text)
  /-- The pointer sits in a corner of the screen. -/
  | failSafe
  /-- The operation was called off. -/
  | canceled
  | plain (message : Text)
  /-- What was being done when the rest of the chain happened. -/
  | during (message : Text)
deriving DecidableEq, Repr

/-- Layers from the outermost to the cause; the empty chain is no failure. -/
abbrev Failure := List Layer

def shownLine (line : Int) : Int :=
  wrap64 (line + 1)

def linePrefix (line : Int) : Text :=
  if line = noLine then [] else utf8 "line " ++ Text.ofInt (shownLine line) ++ utf8 ": "

def behind (cause : Text) (present : Bool) : Text :=
  if present then utf8 ": " ++ cause else []

def didYouMean (suggestions : List Text) : Text :=
  utf8 "did you mean " ++ Text.join (utf8 ", ") suggestions ++ utf8 "?"

namespace Failure

def message : Failure → Text
  | [] => utf8 "<nil>"
  | .parse line raw token text suggestions :: cause =>
    linePrefix line ++ text ++ (if token.isEmpty then [] else utf8 " " ++ token.quote) ++
      utf8 " in " ++ raw.quote ++ behind (message cause) (!cause.isEmpty) ++
      (if suggestions.isEmpty then [] else utf8 " (" ++ didYouMean suggestions ++ utf8 ")")
  | .execution line raw :: cause =>
    linePrefix line ++ utf8 "executing " ++ raw.quote ++ utf8 ": " ++ message cause
  | .path path reason :: cause =>
    utf8 "script " ++ path ++ utf8 ": " ++ reason ++ behind (message cause) (!cause.isEmpty)
  | .settings path :: cause => utf8 "config " ++ path ++ utf8 ": " ++ message cause
  | .aliasLookup word reason :: _ => aliasMessage word reason
  | .usage text :: _ => text
  | .failSafe :: _ => utf8 "fail-safe triggered: pointer moved to a screen corner"
  | .canceled :: _ => utf8 "context canceled"
  | .plain text :: _ => text
  | .during text :: cause => text ++ utf8 ": " ++ message cause

/-- The part of a chain that starts at the first layer `p` accepts. -/
def from? (p : Layer → Bool) : Failure → Option Failure
  | [] => none
  | layer :: cause => if p layer then some (layer :: cause) else from? p cause

def isFailSafe (f : Failure) : Bool :=
  f.contains .failSafe

end Failure

namespace Layer

def isParse : Layer → Bool
  | .parse .. => true
  | _ => false

def isExecution : Layer → Bool
  | .execution .. => true
  | _ => false

def isPath : Layer → Bool
  | .path .. => true
  | _ => false

def isSettings : Layer → Bool
  | .settings .. => true
  | _ => false

def isAliasLookup : Layer → Bool
  | .aliasLookup .. => true
  | _ => false

def isUsage : Layer → Bool
  | .usage .. => true
  | _ => false

end Layer

end KeyScript
