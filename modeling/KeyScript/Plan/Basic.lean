import KeyScript.Command.Basic

/-!
Plans: a loaded script as a flat list of steps. A repetition refers to what it
repeats by line, so a step stands for itself.
-/

namespace KeyScript

structure Step where
  line : Int := 0
  verb : Text := []
  raw : Text := []
  text : Text := []
  millis : Int := 0
  count : Int := 0
  keys : List Text := []
  target : Int := 0
  skipsDelay : Bool := false
deriving DecidableEq, Repr

/-- The steps of a script, and where they came from. -/
structure Plan where
  source : Text := []
  steps : List Step := []
deriving DecidableEq, Repr

def Step.ofCommand (c : Command) : Step where
  line := c.line
  verb := c.verb.name
  raw := c.raw
  text := c.text
  millis := c.millis
  count := c.count
  keys := c.keys
  target := (c.target?.map Command.line).getD noLine
  skipsDelay := c.skipsDelay

def Plan.ofCommands (source : Text) (cs : List Command) : Plan :=
  ⟨source, cs.map Step.ofCommand⟩

end KeyScript
