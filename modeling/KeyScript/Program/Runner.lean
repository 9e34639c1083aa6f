import KeyScript.Failure
import KeyScript.Files
import KeyScript.Program.Shell
import KeyScript.Text.Blank

/-!
Running other programs on a system without any, apart from its command
interpreter. A program is found by its path, or by name in a search path that is
empty.
-/

namespace KeyScript

structure Ending where
  printed : Text
  complaints : Text
  status : Nat
  /-- The signal that ended it, if one did. -/
  signal : Option Text := none
deriving Repr

def Ending.trouble (e : Ending) : Option Text :=
  match e.signal with
  | some signal => some (utf8 "signal: " ++ signal)
  | none => if e.status = 0 then none else some (utf8 "exit status " ++ Text.ofNat e.status)

inductive StartFault where
  | noName
  | notInPath
  | file (fault : FileFault)
deriving DecidableEq, Repr

def StartFault.message (name : Text) : StartFault → Text
  | .noName => utf8 "exec: no command"
  | .notInPath => utf8 "exec: " ++ name.quote ++ utf8 ": executable file not found in $PATH"
  | .file fault => fault.report (utf8 "fork/exec") name

def shellPath : Text := utf8 "/bin/sh"

def runShell (arguments : List Text) : Ending :=
  match arguments with
  | [] => ⟨[], [], 0, none⟩
  | flag :: rest =>
    if flag = utf8 "-c" then
      match rest with
      | [] => ⟨[], shellPath ++ utf8 ": 0: -c requires an argument\n", 2, none⟩
      | program :: names =>
        let s := Shell.runText program (if names.isEmpty then [shellPath] else names)
        ⟨s.out, s.err, s.status, s.signal⟩
    else ⟨[], shellPath ++ utf8 ": 0: cannot open " ++ flag ++ utf8 ": No such file\n", 2, none⟩

def start (name : Text) (arguments : List Text) : Except StartFault Ending :=
  if name.isEmpty then .error .noName
  else if !name.contains slash then .error .notInPath
  else if (name :: arguments).any (·.contains 0) then .error (.file .invalidArgument)
  else if name = shellPath then .ok (runShell arguments)
  else
    match Files.stat {} name with
    | .ok _ => .error (.file .permissionDenied)
    | .error fault => .error (.file fault)

/-- What a run of a program prints, and how it failed, if it did. Complaints of a program that
failed are part of the failure. -/
def runProgram (name : Text) (arguments : List Text) : Text × Option Failure :=
  match start name arguments with
  | .error fault => ([], some [.during name, .plain (fault.message name)])
  | .ok ending =>
    match ending.trouble with
    | none => (ending.printed, none)
    | some trouble =>
      let complaints := ending.complaints.trim
      (ending.printed,
        some [.during name,
          .plain (if complaints.isEmpty then trouble else trouble ++ utf8 ": " ++ complaints)])

end KeyScript
