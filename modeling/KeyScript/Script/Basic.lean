import KeyScript.Files
import KeyScript.Journal
import KeyScript.Script.Source

/-!
A script at a path: its commands, once loaded, and the default delay they
share. A load collects commands apart from those of the load before it, and
replaces these only when the whole text is good; it never touches the default
delay.
-/

namespace KeyScript

/-- A script that can be loaded, or has been. -/
structure Script where
  path : Text
  delay : Int := 0
  commands : List Command := []
  loaded : Bool := false
  /-- Whether a load is in progress. -/
  loading : Bool := false
  /-- What a load in progress has read so far, latest first. -/
  pending : List Command := []
deriving Repr

inductive PathFault where
  | missing (cause : FileFault)
  | unreadable (cause : FileFault)
  | directory
  | notRegular
deriving DecidableEq, Repr

def PathFault.failure (path : Text) : PathFault → Failure
  | .missing cause =>
    [.path path (utf8 "does not exist"), .plain (cause.report (utf8 "stat") path)]
  | .unreadable cause =>
    [.path path (utf8 "cannot be read"), .plain (cause.report (utf8 "stat") path)]
  | .directory => [.path path (utf8 "is a directory, not a file")]
  | .notRegular => [.path path (utf8 "is not a regular file")]

namespace Script

/-- The script at a path, not loaded yet. The path must name a regular file. -/
def find (disk : Disk) (path : Text) (delay : Int) : Except PathFault Script :=
  match disk path with
  | .error .notFound => .error (.missing .notFound)
  | .error fault => .error (.unreadable fault)
  | .ok .directory => .error .directory
  | .ok .device => .error .notRegular
  | .ok (.file _) | .ok (.locked _) | .ok (.damaged _ _) => .ok { path := path, delay := delay }

/-- What can be read at a path: a directory opens, but reading it fails at once. -/
def sourceAt (disk : Disk) (path : Text) : Except LoadFault Source :=
  match disk path with
  | .error fault => .error (.notOpened [.plain (fault.report (utf8 "open") path)])
  | .ok (.file content) => .ok { text := content }
  | .ok .device => .ok { text := [] }
  | .ok .directory =>
    .ok { text := [], broken := some [.plain (FileFault.isDirectory.report (utf8 "read") path)] }
  | .ok (.locked fault) => .error (.notOpened [.plain (fault.report (utf8 "open") path)])
  | .ok (.damaged content fault) =>
    .ok { text := content, broken := some [.plain (fault.report (utf8 "read") path)] }

/-- The commands that a line can refer to, latest first. During a load these are only the ones
it has read. -/
def recent (s : Script) : List Command :=
  if s.loading then s.pending else s.commands.reverse

def previous (s : Script) (line : Int) : Except Violation (Option Command) :=
  KeyScript.previous s.recent line

/-- A line read as if it were part of the script; nothing is added. -/
def parse (s : Script) (raw : Text) (line : Int) : Except ParseFault Command :=
  Command.parse raw line (some s.recent)

def beginLoad (s : Script) : Script :=
  { s with loading := true, pending := [] }

def endLoad (s : Script) : Script :=
  { s with loading := false, pending := [] }

def commit (s : Script) : Script :=
  { s with commands := s.pending.reverse, loaded := true }

def readLines (s : Script) (n : Nat) : List Text → Script × Option LoadFault
  | [] => (s, none)
  | line :: rest =>
    let text := line.trim
    if text.isEmpty then readLines s (n + 1) rest
    else
      match s.parse text n with
      | .ok c => readLines { s with pending := c :: s.pending } (n + 1) rest
      | .error fault => (s, some (.ofParse fault))

/-- Loads the script from a source: the script afterwards, and why the load failed, if it did. -/
def tryLoadFrom (s : Script) (source : Source) : Script × Option LoadFault :=
  match s.beginLoad.readLines 0 source.lines with
  | (s, some fault) => (s.endLoad, some fault)
  | (s, none) =>
    match source.fault with
    | some fault => (s.endLoad, some fault)
    | none => (s.commit.endLoad, none)

def tryLoad (s : Script) (disk : Disk) : Script × Option LoadFault :=
  match sourceAt disk s.path with
  | .ok source => s.tryLoadFrom source
  | .error fault => (s, some fault)

def loadFrom (s : Script) (source : Source) : Except LoadFault Script :=
  match s.tryLoadFrom source with
  | (loaded, none) => .ok loaded
  | (_, some fault) => .error fault

def setDelay (s : Script) (ms : Int) : Except Violation Script :=
  match requireNonNegative ms (utf8 "default delay") with
  | .ok () => .ok { s with delay := ms }
  | .error v => .error v

def linesRead (source : Source) (result : Except LoadFault Script) : Nat :=
  match result with
  | .error (.parse e) => (e.line + 1).toNat
  | _ => source.lines.length

def lineRecords (source : Source) (result : Except LoadFault Script) : List Record :=
  ((source.lines.take (linesRead source result)).zipIdx).map fun (raw, n) =>
    ⟨.debug, utf8 "read line", [(utf8 "line", Text.ofNat n), (utf8 "raw", raw)]⟩

def endRecords (s : Script) (result : Except LoadFault Script) : List Record :=
  match result with
  | .ok loaded =>
    [⟨.info, utf8 "finished loading",
      [(utf8 "path", s.path), (utf8 "commands", Text.ofNat loaded.commands.length)]⟩]
  | .error (.parse e) =>
    [⟨.error, utf8 "unable to parse line",
      [(utf8 "path", s.path), (utf8 "line", Text.ofInt e.line), (utf8 "raw", e.raw),
       (utf8 "error", e.failure.message)]⟩]
  | .error .lineTooLong =>
    [⟨.error, utf8 "unable to read script",
      [(utf8 "path", s.path), (utf8 "error", utf8 "bufio.Scanner: token too long")]⟩]
  | .error (.readFailed cause) =>
    [⟨.error, utf8 "unable to read script",
      [(utf8 "path", s.path), (utf8 "error", cause.message)]⟩]
  | .error _ => []

def loadRecords (s : Script) (source : Source) : List Record :=
  let result := s.loadFrom source
  (if s.loaded then
    [⟨.warn, utf8 "script already loaded, reloading", [(utf8 "path", s.path)]⟩] else []) ++
  ⟨.info, utf8 "loading script", [(utf8 "path", s.path)]⟩ ::
    lineRecords source result ++ endRecords s result

def fileRecords (s : Script) (disk : Disk) : List Record :=
  match sourceAt disk s.path with
  | .ok source => s.loadRecords source
  | .error _ => []

end Script

end KeyScript
