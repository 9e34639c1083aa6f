import KeyScript.Plan.Digest

/-!
Plans for people: a listing with one line for each step.
-/

namespace KeyScript

def Verb.ofName? (name : Text) : Option Verb :=
  Verb.all.find? fun v => v.name == name

namespace Step

/-- What a step does, without its place. A step of an unknown kind is shown as written. -/
def action (s : Step) : Text :=
  match Verb.ofName? s.verb with
  | some .comment => s.text
  | some .delay => utf8 "wait " ++ Text.ofInt s.millis ++ utf8 "ms"
  | some .setDefaultDelay => utf8 "default delay " ++ Text.ofInt s.millis ++ utf8 "ms"
  | some .typeText => s.text.quote
  | some .press => Text.join (utf8 "+") s.keys
  | some .again =>
    if s.target = noLine then utf8 "nothing x" ++ Text.ofInt s.count
    else
      utf8 "line " ++ Text.ofInt (shownLine s.target) ++ utf8 " x" ++ Text.ofInt s.count
  | none => s.raw

def listed (s : Step) : Text :=
  (Text.ofInt (shownLine s.line)).padLeft 4 ++ utf8 "  " ++ s.verb.padRight 13 ++ utf8 "  " ++
    s.action ++ [newline]

end Step

def Plan.listing (p : Plan) : Text :=
  utf8 "source: " ++ p.source ++ [newline] ++ utf8 "digest: " ++ p.digest ++ [newline] ++
    p.steps.flatMap Step.listed

end KeyScript
