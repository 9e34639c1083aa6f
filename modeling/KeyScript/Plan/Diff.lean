import KeyScript.Colour
import KeyScript.Plan.Listing

/-!
Differences between two plans, found by comparing the steps at each position.
Two steps are the same when they are described the same way; the description
holds the line, so a statement that moved counts as changed.
-/

namespace KeyScript

def Step.describe (s : Step) : Text :=
  utf8 "line " ++ Text.ofInt (shownLine s.line) ++ utf8 " " ++ s.verb ++ utf8 " " ++ s.action

/-- A position where two plans differ; the side that has no step there is empty. -/
structure Change where
  position : Nat
  old : Text := []
  new : Text := []
deriving DecidableEq, Repr

structure Diff where
  added : List Change := []
  removed : List Change := []
  modified : List Change := []
deriving DecidableEq, Repr

namespace Diff

def isEmpty (d : Diff) : Bool :=
  d.added.isEmpty && d.removed.isEmpty && d.modified.isEmpty

def modifiedBetween (old new : List Text) : List Change :=
  ((old.zip new).zipIdx 1).filterMap fun ((before, after), position) =>
    if before = after then none else some ⟨position, before, after⟩

def between (old new : List Text) : Diff where
  added := ((new.drop old.length).zipIdx (old.length + 1)).map fun (after, position) =>
    { position := position, new := after }
  removed := ((old.drop new.length).zipIdx (new.length + 1)).map fun (before, position) =>
    { position := position, old := before }
  modified := modifiedBetween old new

def ofPlans (old new : Plan) : Diff :=
  between (old.steps.map Step.describe) (new.steps.map Step.describe)

/-- A block of the report: its title, its lines and an empty line; nothing without changes. -/
def block (title : Text) (changes : List Change) (lines : Change → Text) : Text :=
  if changes.isEmpty then []
  else title ++ [newline] ++ changes.flatMap lines ++ [newline]

def modifiedLines (colours : Bool) (c : Change) : Text :=
  utf8 "  step " ++ Text.ofNat c.position ++ utf8 ":\n" ++
    utf8 "    " ++ Colour.red.paint (utf8 "- " ++ c.old) colours ++ [newline] ++
    utf8 "    " ++ Colour.green.paint (utf8 "+ " ++ c.new) colours ++ [newline]

def addedLines (colours : Bool) (c : Change) : Text :=
  utf8 "  " ++
    Colour.green.paint (utf8 "+ step " ++ Text.ofNat c.position ++ utf8 ": " ++ c.new) colours ++
    [newline]

def removedLines (colours : Bool) (c : Change) : Text :=
  utf8 "  " ++
    Colour.red.paint (utf8 "- step " ++ Text.ofNat c.position ++ utf8 ": " ++ c.old) colours ++
    [newline]

def report (d : Diff) (colours : Bool) : Text :=
  block (Colour.yellow.paint (utf8 "Modified steps:") colours) d.modified
      (modifiedLines colours) ++
    block (Colour.green.paint (utf8 "Added steps:") colours) d.added (addedLines colours) ++
    block (Colour.red.paint (utf8 "Removed steps:") colours) d.removed (removedLines colours) ++
    (if d.isEmpty then utf8 "No differences found.\n" else [])

end Diff
end KeyScript
