import KeyScript.Files
import KeyScript.Settings.Document

/-!
Finding the settings file. It is named, or it is looked for in its usual place,
where it may be missing. A tilde at the start of a path is the home directory.
-/

namespace KeyScript
namespace Settings

inductive LoadCause where
  | otherHome
  | file (path : Text) (operation : String) (fault : FileFault)
  | document (fault : DocumentFault)
  | override (fault : OverrideFault)
deriving DecidableEq, Repr

structure LoadFault where
  path : Text
  cause : LoadCause
deriving DecidableEq, Repr

def LoadCause.message : LoadCause → Text
  | .otherHome => utf8 "cannot expand user-specific home dir"
  | .file path operation fault => fault.report (utf8 operation) path
  | .document fault => fault.message
  | .override fault => fault.message

def LoadFault.failure (f : LoadFault) : Failure :=
  [.settings f.path, .plain f.cause.message]

def usualPath : Text := utf8 "~/.config/ducky/config.yaml"

/-- A path with the home directory in place of a tilde; the home of another user is not known. -/
def expandHome (home path : Text) : Option Text :=
  match path with
  | 126 :: rest =>
    match rest.head? with
    | some b => if b == slash || b == 92 then some (joinPath home rest) else none
    | none => some (joinPath home [])
  | _ => some path

/-- The path of the settings file that a path asks for; an empty path stands for the usual one. -/
def placeOf (home path : Text) : Option Text :=
  expandHome home (if path.isEmpty then usualPath else path)

def readWhole (disk : Disk) (path : Text) : Except (String × FileFault) Text :=
  match disk path with
  | .ok (.file content) => .ok content
  | .ok .device => .ok []
  | .ok .directory => .error ("read", .isDirectory)
  | .ok (.locked fault) => .error ("open", fault)
  | .ok (.damaged _ fault) => .error ("read", fault)
  | .error fault => .error ("open", fault)

def ofText (t : Text) : Except LoadCause Settings :=
  match Overrides.ofText t with
  | .error fault => .error (.document fault)
  | .ok o =>
    match o.apply {} with
    | (s, none) => .ok s
    | (_, some fault) => .error (.override fault)

/-- Loads the settings at a path. Only the file in the usual place may be missing. -/
def load (disk : Disk) (home path : Text) : Except LoadFault Settings :=
  match placeOf home path with
  | none => .error ⟨path, .otherHome⟩
  | some place =>
    match readWhole disk place with
    | .error (operation, fault) =>
      if path.isEmpty && fault == .notFound then .ok {}
      else .error ⟨place, .file place operation fault⟩
    | .ok content =>
      match ofText content with
      | .ok s => .ok s
      | .error cause => .error ⟨place, cause⟩

end Settings
end KeyScript
