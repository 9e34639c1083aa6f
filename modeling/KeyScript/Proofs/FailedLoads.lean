import KeyScript.Report
import KeyScript.Proofs.FirstProblem

/-!
What a person is shown when a script could not be loaded. A report is made from
the layers of a failure. For those that a load can end with it comes to three
parts: the word `Error` with what went wrong, the line of the script if one is at
fault, and a hint where there is help to give.
-/

namespace KeyScript

namespace Problem

/-- What is wrong with a line, in one sentence. -/
def sentence (p : Problem) : Text :=
  p.message ++ (if p.word = [] then [] else utf8 " " ++ p.word.quote) ++
    match p with
    | .badMillis _ fault | .badCount _ fault => utf8 ": " ++ fault.message
    | _ => []

end Problem

namespace LoadFault

def summary (path : Text) : LoadFault → Text
  | .parse e => utf8 "line " ++ Text.ofInt (shownLine e.line) ++ utf8 ": " ++ e.problem.sentence
  | .violation v => v.text
  | .lineTooLong => utf8 "reading script " ++ path ++ utf8 ": bufio.Scanner: token too long"
  | .readFailed cause => utf8 "reading script " ++ path ++ utf8 ": " ++ cause.message
  | .notOpened cause => utf8 "script " ++ path ++ utf8 ": cannot be opened: " ++ cause.message

/-- The line at fault, with its number in the margin. -/
def place (colours : Bool) : LoadFault → List Text
  | .parse e =>
    let margin := (Text.ofInt (shownLine e.line)).padLeft 4 ++ utf8 " | "
    [Colour.gray.paint margin colours ++ e.raw]
  | _ => []

def help : LoadFault → List Text
  | .parse ⟨_, _, .unknownWord word⟩ | .parse ⟨_, _, .unknownKey word⟩ =>
    if suggest word = [] then []
    else [utf8 "did you mean " ++ Text.join (utf8 ", ") (suggest word) ++ utf8 "?"]
  | .notOpened _ => [utf8 "pass the path of a ducky-script file"]
  | _ => []

/-- The lines that tell a person about a load that failed. -/
def shown (path : Text) (colours : Bool) (fault : LoadFault) : Text :=
  let error := Colour.red.paint (utf8 "Error: ") colours ++ fault.summary path
  let hints := fault.help.map (Colour.yellow.paint (utf8 "Hint: ") colours ++ ·)
  (error :: fault.place colours ++ hints).flatMap (· ++ [newline])

end LoadFault

section

open Report

end

namespace Script

end Script
end KeyScript
