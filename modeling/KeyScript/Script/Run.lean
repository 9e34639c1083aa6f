import KeyScript.Script.Basic
import KeyScript.Run

/-!
Running a script: it is loaded first if it has not been, and then its commands
run in order. The default delay that the commands leave is the script's.
-/

namespace KeyScript

def LoadFault.fault (path : Text) : LoadFault → Fault
  | .violation v => .violation v
  | fault => .failure (fault.failure path)

def Host.noteAll {σ : Type} (host : Host σ) (records : List Record) (state : σ) : σ :=
  records.foldl (fun state r => host.note r state) state

namespace Script

variable {σ : Type} (host : Host σ)

def startRecord (s : Script) : Record :=
  ⟨.info, utf8 "executing script", [(utf8 "path", s.path)]⟩

def finishRecord (s : Script) : Record :=
  ⟨.info, utf8 "finished execution", [(utf8 "path", s.path)]⟩

def runLoaded (s : Script) (state : σ) : (Script × σ) × Option Fault :=
  let m : Machine σ := ⟨s.delay, state⟩
  match runAll host s.path s.commands (m.note host s.startRecord) with
  | (m, none) => (({ s with delay := m.delay }, (m.note host s.finishRecord).host), none)
  | (m, some fault) => (({ s with delay := m.delay }, m.host), some fault)

def execute (s : Script) (c : Command) (state : σ) : (Script × σ) × Option Fault :=
  let (m, fault) := c.execute host false ⟨s.delay, state⟩
  (({ s with delay := m.delay }, m.host), fault)

def loadFromNoting (s : Script) (source : Source) (state : σ) : (Script × σ) × Option Fault :=
  let (loaded, fault) := s.tryLoadFrom source
  ((loaded, host.noteAll (s.loadRecords source) state), fault.map (LoadFault.fault s.path))

def loadNoting (s : Script) (disk : Disk) (state : σ) : (Script × σ) × Option Fault :=
  let (loaded, fault) := s.tryLoad disk
  ((loaded, host.noteAll (s.fileRecords disk) state), fault.map (LoadFault.fault s.path))

def run (s : Script) (disk : Disk) (state : σ) : (Script × σ) × Option Fault :=
  if s.loaded then s.runLoaded host state
  else
    let state := host.note ⟨.debug, utf8 "loading script before run", [(utf8 "path", s.path)]⟩ state
    match s.loadNoting host disk state with
    | ((loaded, state), none) => loaded.runLoaded host state
    | stopped => stopped

end Script

end KeyScript
