import KeyScript.Key.Name
import KeyScript.Text.Letter
import KeyScript.Text.Quoted

/-!
What the words of a script stand for. A word may be an alias of a verb or of a
key, one hop away. A key word is a chord of parts joined by hyphens; each part
is looked up on its own, as written in the small table of renamed keys, else in
lower case.
-/

namespace KeyScript

def verbWords : List Text :=
  ["REM", "DEFAULT_DELAY", "DELAY", "STRING", "REPEAT"].map utf8

def aliases : List (Text × Text) :=
  [("DEFAULTDELAY", "DEFAULT_DELAY"), ("WINDOWS", "GUI"), ("MENU", "APP"), ("CONTROL", "CTRL"),
   ("DOWNARROW", "DOWN"), ("UPARROW", "UP"), ("LEFTARROW", "LEFT"), ("RIGHTARROW", "RIGHT"),
   ("BREAK", "PAUSE"), ("ESC", "ESCAPE")].map fun (a, b) => (utf8 a, utf8 b)

/-- The key between Ctrl and Alt, which has another name on each kind of system. -/
def guiKeyFor (system : Text) : Text :=
  if system = utf8 "darwin" then utf8 "command" else utf8 "winleft"

example (system : Text) : Key.isName (guiKeyFor system) := by
  rw [guiKeyFor]
  split <;> decide

def hostSystem : Text := utf8 "linux"

def guiKey : Text := guiKeyFor hostSystem

/-- The keys whose name is not their word in lower case. -/
def renamedKeys : List (Text × Text) :=
  [(utf8 "GUI", guiKey), (utf8 "APP", utf8 "apps")]

def hyphen : UInt8 := 45

def isVerbWord (word : Text) : Bool :=
  verbWords.contains word

def isAlias (word : Text) : Bool :=
  (aliases.lookup word).isSome

def canonical (word : Text) : Text :=
  (aliases.lookup word).getD word

def keyOfPart (part : Text) : Option Text :=
  let word := canonical part
  let name := (renamedKeys.lookup word).getD word.lower
  if Key.isName name then some name else none

/-- The keys of a chord, `none` for each part that names no key. -/
def keysOfParts (word : Text) : List (Option Text) :=
  (word.split hyphen).map keyOfPart

def keysOf (word : Text) : Option (List Text) :=
  (keysOfParts word).mapM id

def isRecognized (word : Text) : Bool :=
  isVerbWord (canonical word) || (keysOf word).isSome

inductive AliasFault where
  | notAnAlias
  | notRecognized
  | alreadyAlias
deriving DecidableEq, Repr

namespace AliasFault

def reason : AliasFault → Text
  | .notAnAlias => utf8 "is not an alias"
  | .notRecognized => utf8 "is not a recognized verb or key"
  | .alreadyAlias => utf8 "is already an alias"

end AliasFault

def aliasMessage (word reason : Text) : Text :=
  utf8 "alias lookup: " ++ word.quote ++ utf8 " " ++ reason

def resolveAlias (word : Text) : Except AliasFault Text :=
  match aliases.lookup word with
  | some target => .ok target
  | none => .error .notAnAlias

def aliasOf (word : Text) : Except AliasFault (Option Text) :=
  if !isRecognized word then .error .notRecognized
  else if isAlias word then .error .alreadyAlias
  else .ok ((aliases.find? fun entry => entry.2 == word).map (·.1))

end KeyScript
