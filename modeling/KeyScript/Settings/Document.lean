import KeyScript.Settings.Schema

/-!
A settings file as a document: read, held against the schema, and taken for what
it asks for.
-/

namespace KeyScript

open Yaml (Value)

inductive DocumentFault where
  | unreadable
  | notData (fault : Yaml.DataFault)
  | invalid (failings : List Schema.Failing)
  /-- A name that is given twice, written in two ways. -/
  | repeatedName
  | unsupportedVersion (version : Text)
deriving DecidableEq, Repr

def dataFaultMessage : Yaml.DataFault → Text
  | .notFinite shown => utf8 "json: unsupported value: " ++ shown
  | .notName => utf8 "json: a key that is not a name"
  | .zone => utf8 "json: timezone hour outside of range [0,23]"
  | .depth => utf8 "json: exceeded max depth"

def DocumentFault.message : DocumentFault → Text
  | .unreadable => utf8 "parsing settings: not a document that can be read"
  | .notData fault => utf8 "parsing settings: " ++ dataFaultMessage fault
  | .invalid failings =>
    utf8 "invalid settings: " ++ ((Schema.foremost failings).map Schema.Failing.text).getD []
  | .repeatedName => utf8 "decoding settings: a name is given twice"
  | .unsupportedVersion version =>
    utf8 "unsupported settings version " ++ version ++ utf8 " (want v1.x)"

namespace Overrides

def supportedMajor : Text := utf8 "1"

def ofEntries (entries : List (Yaml.Atom × Value)) : Overrides :=
  let find (name : String) : Option Value := entries.lookup (.text (utf8 name))
  let text (name : String) : Text := ((find name).bind Value.text?).getD []
  { version := text "version"
    pause := text "pause"
    failSafe := (find "failsafe").bind Value.bool?
    defaultDelay := (find "default_delay").bind Value.int?
    logLevel := text "log_level"
    backend := text "backend" }

/-- Refuses a version that is not supported; no version is as good as the right one. -/
def checkVersion (o : Overrides) : Except DocumentFault Overrides :=
  if o.version.isEmpty || Version.major? o.version == some supportedMajor then .ok o
  else .error (.unsupportedVersion o.version)

def ofValue (v : Value) : Except DocumentFault Overrides :=
  match v with
  | .atom .null => .ok {}
  | v =>
    match v.dataFault? 0 with
    | some fault => .error (.notData fault)
    | none =>
      match Schema.failings v, v with
      | [], .map entries repeated =>
        if repeated then .error .repeatedName else checkVersion (ofEntries entries)
      | failings, _ => .error (.invalid failings)

def ofText (t : Text) : Except DocumentFault Overrides :=
  match Value.ofText? t with
  | none => .error .unreadable
  | some v => ofValue v

end Overrides
end KeyScript
