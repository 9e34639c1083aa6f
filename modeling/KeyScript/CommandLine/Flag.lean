import KeyScript.Settings.Basic

/-!
The flags of the command line and the options they set. A flag has a name, maybe
a letter, and a value; the value of some flags is implied when none is given.
-/

namespace KeyScript

inductive Flag where
  | backend
  | config
  | defaultDelay
  | dryRun
  | format
  | help
  | noColour
  | noFailSafe
  | pause
  | verbose
  | vverbose
  | watch
deriving DecidableEq, Repr

/-- What the flags of a command line ask for. A missing value asks for nothing. -/
structure Options where
  backend : Option Text := none
  config : Text := []
  defaultDelay : Option Int := none
  dryRun : Bool := false
  format : Text := utf8 "text"
  help : Bool := false
  noColour : Bool := false
  noFailSafe : Option Bool := none
  pause : Option Nanos := none
  verbose : Int := 0
  vverbose : Bool := false
  watch : Bool := false
deriving DecidableEq, Repr

inductive ValueFault where
  | integer (fault : NumberFault)
  | truth
  | duration (fault : DurationFault)
deriving DecidableEq, Repr

def ValueFault.message (value : Text) : ValueFault → Text
  | .integer fault => fault.message (utf8 "strconv.ParseInt") value
  | .truth => NumberFault.syntaxFault.message (utf8 "strconv.ParseBool") value
  | .duration fault => fault.message value

namespace FlagValue

def yesWords : List Text := ["1", "t", "T", "true", "TRUE", "True"].map utf8

def noWords : List Text := ["0", "f", "F", "false", "FALSE", "False"].map utf8

def truth (value : Text) : Except ValueFault Bool :=
  if yesWords.contains value then .ok true
  else if noWords.contains value then .ok false
  else .error .truth

def integer (value : Text) : Except ValueFault Int :=
  (Text.readInt value).mapError .integer

def duration (value : Text) : Except ValueFault Nanos :=
  (Duration.read value).mapError .duration

def oneMore : Text := utf8 "+1"

def countAfter (count : Int) (value : Text) : Except ValueFault Int :=
  if value = oneMore then .ok (wrap64 (count + 1)) else integer value

end FlagValue

namespace Flag

def name : Flag → Text
  | .backend => utf8 "backend"
  | .config => utf8 "config"
  | .defaultDelay => utf8 "default-delay"
  | .dryRun => utf8 "dry-run"
  | .format => utf8 "format"
  | .help => utf8 "help"
  | .noColour => utf8 "no-color"
  | .noFailSafe => utf8 "no-failsafe"
  | .pause => utf8 "pause"
  | .verbose => utf8 "verbose"
  | .vverbose => utf8 "vverbose"
  | .watch => utf8 "watch"

/-- The value of a flag that is given without one; `none` when it needs one. -/
def implied : Flag → Option Text
  | .dryRun | .help | .noColour | .noFailSafe | .vverbose | .watch => some (utf8 "true")
  | .verbose => some FlagValue.oneMore
  | .backend | .config | .defaultDelay | .format | .pause => none

def letter : Flag → Option UInt8
  | .help => some 104
  | .verbose => some 118
  | _ => none

def spellings (f : Flag) : Text :=
  match f.letter with
  | some b => [45, b] ++ utf8 ", --" ++ f.name
  | none => utf8 "--" ++ f.name

end Flag

namespace Options

def set (o : Options) (flag : Flag) (value : Text) : Except ValueFault Options :=
  match flag with
  | .backend => .ok { o with backend := some value }
  | .config => .ok { o with config := value }
  | .defaultDelay => (FlagValue.integer value).map fun n => { o with defaultDelay := some n }
  | .dryRun => (FlagValue.truth value).map fun b => { o with dryRun := b }
  | .format => .ok { o with format := value }
  | .help => (FlagValue.truth value).map fun b => { o with help := b }
  | .noColour => (FlagValue.truth value).map fun b => { o with noColour := b }
  | .noFailSafe => (FlagValue.truth value).map fun b => { o with noFailSafe := some b }
  | .pause => (FlagValue.duration value).map fun d => { o with pause := some d }
  | .verbose => (FlagValue.countAfter o.verbose value).map fun n => { o with verbose := n }
  | .vverbose => (FlagValue.truth value).map fun b => { o with vverbose := b }
  | .watch => (FlagValue.truth value).map fun b => { o with watch := b }

end Options
end KeyScript
