import KeyScript.Command.Parse
import KeyScript.Settings.Basic
import KeyScript.Settings.Version
import KeyScript.Yaml.Data

/-!
What a settings document may hold: a mapping with known names only, each value
of the type, the format and the range that its name asks for. All failures of a
document are found, in the order of their places.
-/

namespace KeyScript

namespace Schema

open Yaml (Value)

inductive Rule where
  | version
  | duration
  | truth
  | millis
  | oneOf (words : List Text)
deriving DecidableEq, Repr

def rules : List (Text × Rule) :=
  [(utf8 "version", .version),
   (utf8 "pause", .duration),
   (utf8 "failsafe", .truth),
   (utf8 "default_delay", .millis),
   (utf8 "log_level", .oneOf [utf8 "debug", utf8 "info", utf8 "warn", utf8 "error"]),
   (utf8 "backend", .oneOf [Backend.xdotool, Backend.dryRun])]

structure Failing where
  place : Text
  keyword : Text
  message : Text
deriving DecidableEq, Repr

/-- Each backslash that stands before a double quote is taken out. -/
def bareQuotes : Text → Text
  | 92 :: 34 :: rest => 34 :: bareQuotes rest
  | b :: rest => b :: bareQuotes rest
  | [] => []

def singleQuote (t : Text) : Text :=
  let bare := bareQuotes t.quote
  let escaped := bare.flatMap fun b => if b == 39 then [92, 39] else [b]
  utf8 "'" ++ (escaped.drop 1).dropLast ++ utf8 "'"

def Failing.le (a b : Failing) : Bool :=
  if a.place != b.place then a.place ≤ b.place
  else if a.keyword != b.keyword then a.keyword ≤ b.keyword
  else a.message ≤ b.message

def typeMessage (wanted : String) (v : Value) : Text :=
  utf8 "expected " ++ utf8 wanted ++ utf8 ", but got " ++ v.typeName

def formatMessage (format : String) (t : Text) : Text :=
  singleQuote t ++ utf8 " is not valid '" ++ utf8 format ++ utf8 "'"

def isDuration (t : Text) : Bool :=
  match Duration.read t with
  | .ok d => 0 ≤ d
  | .error _ => false

/-- The longest default delay that a document may ask for, in milliseconds. -/
def longestDelay : Nat := 9223372036854

/-- What is wrong with a value under a rule: keyword and message of the only failure, if any. -/
def Rule.check (v : Value) : Rule → Option (String × Text)
  | .version =>
    match v.text? with
    | none => some ("type", typeMessage "string" v)
    | some t =>
      if (Version.major? t).isSome then none else some ("format", formatMessage "semver" t)
  | .duration =>
    match v.text? with
    | none => some ("type", typeMessage "string" v)
    | some t => if isDuration t then none else some ("format", formatMessage "duration" t)
  | .truth => if v.bool?.isSome then none else some ("type", typeMessage "boolean" v)
  | .millis =>
    match v.int? with
    | none => some ("type", typeMessage "integer" v)
    | some n =>
      if n < 0 then some ("minimum", utf8 "must be >= 0 but found " ++ v.numberText)
      else if longestDelay < n then
        some ("maximum", utf8 "must be <= 9.223372036854e+12 but found " ++ v.numberText)
      else none
  | .oneOf words =>
    if v.text?.any words.contains then none
    else
      some ("enum", utf8 "value must be one of " ++ Text.join (utf8 ", ") (words.map Text.quote))

def checkEntry (name : Text) (rule : Rule) (v : Value) : Option Failing :=
  (rule.check v).map fun (keyword, message) =>
    ⟨utf8 "/" ++ name, utf8 "/properties/" ++ name ++ utf8 "/" ++ utf8 keyword, message⟩

def unknownNames (entries : List (Yaml.Atom × Value)) : List Text :=
  ((entries.filterMap fun e => e.1.name?).filter fun name => (rules.lookup name).isNone)
    |>.eraseDups |>.map singleQuote |>.mergeSort

def failings : Value → List Failing
  | .map entries _ =>
    let unknown := unknownNames entries
    let extra : List Failing :=
      if unknown.isEmpty then []
      else
        [⟨[], utf8 "/additionalProperties",
          utf8 "additionalProperties " ++ Text.join (utf8 ", ") unknown ++ utf8 " not allowed"⟩]
    let found := rules.filterMap fun (name, rule) =>
      (entries.lookup (.text name)).bind (checkEntry name rule)
    (extra ++ found).mergeSort Failing.le
  | v => [⟨[], utf8 "/type", typeMessage "object" v⟩]

/-- The failure that stands for all of them: one of a named value, if there is one. -/
def foremost (found : List Failing) : Option Failing :=
  match found.find? fun f => !f.place.isEmpty with
  | some f => some f
  | none => found.head?

def Failing.text (f : Failing) : Text :=
  utf8 "jsonschema: " ++ singleQuote f.place ++
    utf8 " does not validate with schema://ducky/config.json#" ++ f.keyword ++ utf8 ": " ++ f.message

end Schema
end KeyScript
