import KeyScript.Colour
import KeyScript.Failure
import KeyScript.Text.Glyph

/-!
Failures as they are shown at the end of a run: what went wrong, the line of the
script it is about and, where there is one, a hint. The exit code tells the kind
of failure to other programs.
-/

namespace KeyScript

namespace Report

def errorLine (message : Text) (colours : Bool) : Text :=
  Colour.red.paint (utf8 "Error: ") colours ++ message ++ [newline]

def hintLine (hint : Text) (colours : Bool) : Text :=
  Colour.yellow.paint (utf8 "Hint: ") colours ++ hint ++ [newline]

def sourceLine (line : Int) (raw : Text) (colours : Bool) : Text :=
  if raw.isEmpty then []
  else
    let margin :=
      if line = noLine then utf8 "    | "
      else (Text.ofInt (shownLine line)).padLeft 4 ++ utf8 " | "
    Colour.gray.paint margin colours ++ raw ++ [newline]

end Report

namespace Failure

open Report

/-- The failure for people. A line that was not understood, or failed, is shown; otherwise the
whole message is. -/
def report (f : Failure) (colours : Bool) : Text :=
  if f.isEmpty then []
  else
    match f.from? Layer.isParse with
    | some (.parse line raw token text suggestions :: cause) =>
      errorLine
          (linePrefix line ++ text ++ (if token.isEmpty then [] else utf8 " " ++ token.quote) ++
            behind (message cause) (!cause.isEmpty)) colours ++
        sourceLine line raw colours ++
        (if suggestions.isEmpty then [] else hintLine (didYouMean suggestions) colours)
    | _ =>
      match f.from? Layer.isExecution with
      | some (.execution line raw :: cause) =>
        errorLine (linePrefix line ++ message cause) colours ++ sourceLine line raw colours ++
          (if isFailSafe cause then
            hintLine
              (utf8 "the pointer was in a screen corner; move it away or pass --no-failsafe")
              colours
          else [])
      | _ =>
        errorLine f.message colours ++
          (if f.any Layer.isPath then
            hintLine (utf8 "pass the path of a ducky-script file") colours
          else if f.any Layer.isSettings then
            hintLine (utf8 "fix the settings file or point --config at another one") colours
          else [])

/-- The exit code after a failure: 3 for a line that was not understood, 4 for one that failed, 2
for a script that cannot be found, 1 for anything else. -/
def exitCode (f : Failure) : Nat :=
  if f.isEmpty then 0
  else if f.any Layer.isParse then 3
  else if f.any Layer.isExecution then 4
  else if f.any Layer.isPath then 2
  else 1

end Failure
end KeyScript
