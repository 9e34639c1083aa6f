import KeyScript.Failure

/-!
A tree of files as a script or a settings file is looked up in it. Paths are
resolved component by component from the working directory, so each outcome has
its cause: a missing name, a parent that is no directory, a name that is too
long.
-/

namespace KeyScript

inductive FileFault where
  | notFound
  | notDirectory
  | isDirectory
  | nameTooLong
  | invalidArgument
  | permissionDenied
  | inputOutput
deriving DecidableEq, Repr

inductive Entry where
  | file (content : Text)
  | directory
  | device
  /-- A file that cannot be opened. -/
  | locked (fault : FileFault)
  /-- A file that cannot be read to its end, with what comes before the fault. -/
  | damaged (content : Text) (fault : FileFault)
deriving DecidableEq, Repr

def FileFault.message : FileFault → Text
  | .notFound => utf8 "no such file or directory"
  | .notDirectory => utf8 "not a directory"
  | .isDirectory => utf8 "is a directory"
  | .nameTooLong => utf8 "file name too long"
  | .invalidArgument => utf8 "invalid argument"
  | .permissionDenied => utf8 "permission denied"
  | .inputOutput => utf8 "input/output error"

def FileFault.report (fault : FileFault) (operation path : Text) : Text :=
  operation ++ utf8 " " ++ path ++ utf8 ": " ++ fault.message

abbrev Disk := Text → Except FileFault Entry

def slash : UInt8 := 47

def maxName : Nat := 255

def maxPath : Nat := 4095

inductive Place where
  /-- Below the working directory. -/
  | inside (names : List Text)
  /-- A directory around the working directory. -/
  | around
  /-- From the root of the whole system. -/
  | system (names : List Text)
deriving DecidableEq, Repr

/-- The entries below the working directory, each by its names from there. -/
structure Files where
  entries : List (List Text × Entry) := []
deriving Repr

namespace Files

/-- What is at a place. The only device is the empty one. -/
def at? (fs : Files) : Place → Option Entry
  | .inside [] | .around | .system [] => some .directory
  | .inside names => fs.entries.lookup names
  | .system names =>
    if names = [utf8 "dev"] then some .directory
    else if names = [utf8 "dev", utf8 "null"] then some .device
    else none

def child (place : Place) (name : Text) : Option Place :=
  if name = [] ∨ name = utf8 "." then some place
  else if name = utf8 ".." then
    match place with
    | .inside [] | .around => some .around
    | .inside names => some (.inside names.dropLast)
    | .system names => some (.system names.dropLast)
  else
    match place with
    | .inside names => some (.inside (names ++ [name]))
    | .around => none
    | .system names => some (.system (names ++ [name]))

/-- Follows components from a place; every component must be looked up in a directory. -/
def follow (fs : Files) (place : Place) : List Text → Except FileFault Place
  | [] => .ok place
  | name :: rest =>
    match fs.at? place with
    | some .directory =>
      if maxName < name.length then .error .nameTooLong
      else
        match child place name with
        | none => .error .notFound
        | some next => if (fs.at? next).isSome then follow fs next rest else .error .notFound
    | some _ => .error .notDirectory
    | none => .error .notFound

def resolve (fs : Files) (path : Text) : Except FileFault Place :=
  if path.contains 0 then .error .invalidArgument
  else if maxPath < path.length then .error .nameTooLong
  else
    match path with
    | [] => .error .notFound
    | 47 :: rest => follow fs (.system []) (Text.split slash rest)
    | _ => follow fs (.inside []) (path.split slash)

def stat (fs : Files) : Disk := fun path =>
  match fs.resolve path with
  | .error fault => .error fault
  | .ok place =>
    match fs.at? place with
    | some entry => .ok entry
    | none => .error .notFound

/-- The names of a path that stays below the working directory, `.` and `..` taken out. -/
def namesOf (path : Text) : List Text :=
  (path.split slash).foldl (fun names name =>
    if name = [] ∨ name = utf8 "." then names
    else if name = utf8 ".." then names.dropLast
    else names ++ [name]) []

def put (fs : Files) (names : List Text) (entry : Entry) : Files :=
  ⟨(names, entry) :: fs.entries.filter fun e => e.1 ≠ names⟩

def withParents (fs : Files) (names : List Text) : Files :=
  (List.range names.length).foldl (fun fs k =>
    let parent := names.take k
    if parent = [] ∨ (fs.entries.lookup parent).isSome then fs else fs.put parent .directory) fs

def addFile (fs : Files) (path content : Text) : Files :=
  let names := namesOf path
  (fs.withParents names).put names (.file content)

def addDirectory (fs : Files) (path : Text) : Files :=
  let names := namesOf path
  if names = [] then fs else (fs.withParents names).put names .directory

def remove (fs : Files) (path : Text) : Files :=
  let names := namesOf path
  ⟨fs.entries.filter fun e => !names.isPrefixOf e.1⟩

def ofLists (files : List (Text × Text)) (directories : List Text) : Files :=
  directories.foldl addDirectory (files.foldl (fun fs (path, content) => fs.addFile path content) {})

def rename (fs : Files) (path newPath : Text) : Files :=
  match fs.stat path with
  | .ok (.file content) => (fs.remove path).addFile newPath content
  | _ => fs

end Files

/-- The shortest path to the same place, found from the components alone: `.` and doubled slashes
are dropped, and a name goes away with the `..` behind it. -/
def cleanPath (path : Text) : Text :=
  let rooted := path.head? == some slash
  let names := (path.split slash).foldl (fun names name =>
    if name = [] ∨ name = utf8 "." then names
    else if name = utf8 ".." then
      match names.getLast? with
      | none => if rooted then names else names ++ [name]
      | some last => if last = utf8 ".." then names ++ [name] else names.dropLast
    else names ++ [name]) []
  let body := Text.join [slash] names
  if rooted then slash :: body else if body.isEmpty then utf8 "." else body

def joinPath (a b : Text) : Text :=
  if a.isEmpty ∧ b.isEmpty then []
  else if a.isEmpty then cleanPath b
  else if b.isEmpty then cleanPath a
  else cleanPath (a ++ slash :: b)

end KeyScript
