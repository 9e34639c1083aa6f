import KeyScript.Plan.Digest
import KeyScript.Script.Basic

/-!
Watching a script: it is loaded once, and again after every change of its file.
Each load has one result, the plan of the script with its digest or the failure.
What the script holds is what the last good load gave it.
-/

namespace KeyScript

inductive FileEvent where
  | created
  | written
  | renamed
  | removed
  | permissions
deriving DecidableEq, Repr

namespace FileEvent

def name : FileEvent → Text
  | .created => utf8 "CREATE"
  | .written => utf8 "WRITE"
  | .renamed => utf8 "RENAME"
  | .removed => utf8 "REMOVE"
  | .permissions => utf8 "CHMOD"

/-- Whether the content of the file may be another one. -/
def isRelevant : FileEvent → Bool
  | .created | .written | .renamed => true
  | .removed | .permissions => false

end FileEvent

structure Loaded where
  plan : Plan
  digest : Text
deriving DecidableEq, Repr

def Loaded.ofPlan (plan : Plan) : Loaded := ⟨plan, plan.digest⟩

structure Reload where
  /-- What happened to the file; nothing before the first load. -/
  event : Option FileEvent
  /-- The script after the load. -/
  script : Script
  result : Except Failure Loaded
  /-- What the load itself logged. -/
  loading : List Record

def Reload.outcome (r : Reload) : Except Failure Plan :=
  r.result.map Loaded.plan

namespace Watch

def reload (s : Script) (disk : Disk) (event : Option FileEvent) : Reload :=
  let loading := s.fileRecords disk
  match s.tryLoad disk with
  | (loaded, none) =>
    ⟨event, loaded, .ok (.ofPlan (Plan.ofCommands s.path loaded.commands)), loading⟩
  | (kept, some fault) => ⟨event, kept, .error (fault.failure s.path), loading⟩

/-- The loads that events cause, each on the disk as it is then. -/
def reloadsAfter (s : Script) : List (FileEvent × Disk) → List Reload
  | [] => []
  | (event, disk) :: rest =>
    if event.isRelevant then
      let r := reload s disk (some event)
      r :: reloadsAfter r.script rest
    else reloadsAfter s rest

def reloads (s : Script) (disk : Disk) (events : List (FileEvent × Disk)) : List Reload :=
  let first := reload s disk none
  first :: reloadsAfter first.script events

def startRecord (path : Text) : Record :=
  ⟨.info, utf8 "watching script", [(utf8 "path", cleanPath path)]⟩

end Watch

namespace Reload

def eventRecords (r : Reload) : List Record :=
  match r.event with
  | none => []
  | some event =>
    [⟨.debug, utf8 "script changed",
      [(utf8 "path", cleanPath r.script.path), (utf8 "op", event.name)]⟩]

def outcomeRecord (r : Reload) : Record :=
  match r.result with
  | .ok loaded =>
    ⟨.info, utf8 "reloaded script",
      [(utf8 "path", r.script.path), (utf8 "digest", shortened loaded.digest)]⟩
  | .error f =>
    ⟨.warn, utf8 "reload failed", [(utf8 "path", r.script.path), (utf8 "error", f.message)]⟩

def watchRecords (r : Reload) : List Record :=
  r.eventRecords ++ [r.outcomeRecord]

def records (r : Reload) : List Record :=
  r.eventRecords ++ r.loading ++ [r.outcomeRecord]

end Reload

inductive FileChange where
  /-- The file gets new content at once. -/
  | replace (content : Text)
  /-- Another file is written. -/
  | writeOther (path content : Text)
  | remove
  | permissions
  /-- The file gets another name. -/
  | moveTo (path : Text)
deriving Repr

namespace FileChange

def apply (path : Text) (fs : Files) : FileChange → Files
  | .replace content => fs.addFile path content
  | .writeOther other content => fs.addFile other content
  | .remove => fs.remove path
  | .permissions => fs
  | .moveTo other => fs.rename path other

/-- What happens to the watched file; nothing when another one changes. -/
def event? : FileChange → Option FileEvent
  | .replace _ => some .created
  | .writeOther .. => none
  | .remove => some .removed
  | .permissions => some .permissions
  | .moveTo _ => some .renamed

def history (path : Text) (fs : Files) : List FileChange → List (FileEvent × Disk)
  | [] => []
  | c :: rest =>
    let fs := c.apply path fs
    let later := history path fs rest
    match c.event? with
    | some event => (event, fs.stat) :: later
    | none => later

end FileChange
end KeyScript
