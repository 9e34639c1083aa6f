import KeyScript.Text.Basic

/-!
Colours of texts shown on a terminal.
-/

namespace KeyScript

inductive Colour where
  | red
  | green
  | yellow
  | gray
deriving DecidableEq, Repr

namespace Colour

def mode (n : Text) : Text :=
  utf8 "\x1b[" ++ n ++ utf8 "m"

def code : Colour → Text
  | .red => mode (utf8 "31")
  | .green => mode (utf8 "32")
  | .yellow => mode (utf8 "33")
  | .gray => mode (utf8 "90")

def reset : Text := mode (utf8 "0")

def wrap (code text : Text) (inUse : Bool) : Text :=
  if !inUse || text.isEmpty then text else code ++ text ++ reset

def paint (c : Colour) (text : Text) (inUse : Bool) : Text :=
  wrap c.code text inUse

end Colour
end KeyScript
