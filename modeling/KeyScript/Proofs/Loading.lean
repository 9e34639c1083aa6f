import KeyScript.Keyboard.Rehearsal
import KeyScript.Script.Run

/-!
What a load does to a script. While it is in progress only the pending commands
grow, so reading lines into a script is reading them on their own; when it is
over, however it ended, the pending commands are gone. A load is therefore all
or nothing, and a host sees nothing of it but records for its log.
-/

namespace KeyScript
namespace Script

theorem recent_of_loading {s : Script} (h : s.loading = true) : s.recent = s.pending := by
  simp only [recent, h, ite_true]

/-- A load in progress finds in lines what they hold on their own, commands or a fault. -/
theorem readLines_eq {s : Script} (h : s.loading = true) (n : Nat) (lines : List Text) :
    match KeyScript.readLines n s.pending lines with
    | .ok cs => s.readLines n lines = ({ s with pending := cs.reverse }, none)
    | .error fault =>
      ∃ pending, s.readLines n lines = ({ s with pending := pending }, some fault) := by
  induction lines generalizing s n with
  | nil => simp only [KeyScript.readLines, readLines, List.reverse_reverse]
  | cons line rest ih =>
      simp only [KeyScript.readLines, readLines, parse, recent_of_loading h]
      by_cases blank : line.trim.isEmpty = true
      · simp only [blank, ite_true]
        exact ih h (n + 1)
      · simp only [blank]
        cases Command.parse line.trim n (some s.pending) with
        | ok c => exact ih (s := { s with pending := c :: s.pending }) h (n + 1)
        | error fault => exact ⟨s.pending, rfl⟩

/-- A load takes over what its source holds, or nothing. -/
theorem tryLoadFrom_eq (s : Script) (source : Source) :
    s.tryLoadFrom source =
      match source.commands with
      | .ok cs => ({ s.endLoad with commands := cs, loaded := true }, none)
      | .error fault => (s.endLoad, some fault) := by
  have h := readLines_eq (s := s.beginLoad) rfl 0 source.lines
  simp only [tryLoadFrom, Source.commands]
  change match KeyScript.readLines 0 [] source.lines with | .ok _ => _ | .error _ => _ at h
  cases hr : KeyScript.readLines 0 [] source.lines with
  | ok cs =>
      rw [hr] at h
      rw [h]
      cases source.fault with
      | none => simp only [commit, List.reverse_reverse]; rfl
      | some fault => rfl
  | error fault =>
      rw [hr] at h
      obtain ⟨pending, h⟩ := h
      rw [h]
      rfl

theorem loadFrom_of_none {s : Script} {source : Source} (h : (s.tryLoadFrom source).2 = none) :
    s.loadFrom source = .ok (s.tryLoadFrom source).1 := by
  rcases hl : s.tryLoadFrom source with ⟨loaded, _ | fault⟩
  · simp only [loadFrom, hl]
  · rw [hl] at h
    cases h

theorem loadFrom_of_some {s : Script} {source : Source} {fault : LoadFault}
    (h : (s.tryLoadFrom source).2 = some fault) : s.loadFrom source = .error fault := by
  rcases hl : s.tryLoadFrom source with ⟨loaded, _ | early⟩
  · rw [hl] at h
    cases h
  · rw [hl] at h
    cases h
    simp only [loadFrom, hl]

theorem loadFrom_eq_ok_iff {s loaded : Script} {source : Source} :
    s.loadFrom source = .ok loaded ↔
      ∃ cs, source.commands = .ok cs ∧
        loaded = { s.endLoad with commands := cs, loaded := true } := by
  rw [loadFrom, tryLoadFrom_eq]
  cases source.commands with
  | ok cs => simp [eq_comm]
  | error fault => simp

theorem loadFrom_eq_error_iff {s : Script} {source : Source} {fault : LoadFault} :
    s.loadFrom source = .error fault ↔ source.commands = .error fault := by
  rw [loadFrom, tryLoadFrom_eq]
  cases source.commands <;> simp

/-- What the file of a script holds. -/
def fileCommands (s : Script) (disk : Disk) : Except LoadFault (List Command) :=
  (sourceAt disk s.path).bind Source.commands

theorem fileCommands_eq_ok {s : Script} {disk : Disk} {cs : List Command}
    (h : s.fileCommands disk = .ok cs) :
    ∃ source, sourceAt disk s.path = .ok source ∧ source.commands = .ok cs := by
  rw [fileCommands] at h
  cases opened : sourceAt disk s.path with
  | ok source =>
      rw [opened] at h
      exact ⟨source, rfl, h⟩
  | error fault =>
      rw [opened] at h
      cases h

theorem tryLoad_of_ok {s : Script} {disk : Disk} {cs : List Command}
    (found : s.fileCommands disk = .ok cs) :
    s.tryLoad disk = ({ s.endLoad with commands := cs, loaded := true }, none) := by
  obtain ⟨source, opened, commands⟩ := fileCommands_eq_ok found
  simp only [tryLoad, opened, tryLoadFrom_eq, commands]

theorem tryLoad_of_error {s : Script} {disk : Disk} {fault : LoadFault}
    (found : s.fileCommands disk = .error fault) : (s.tryLoad disk).2 = some fault := by
  rw [fileCommands] at found
  rw [tryLoad]
  cases opened : sourceAt disk s.path with
  | ok source =>
      rw [opened] at found
      have commands : source.commands = .error fault := found
      simp only [tryLoadFrom_eq, commands]
  | error early =>
      rw [opened] at found
      cases found
      rfl

/-- What a load makes of a script: it takes over all commands that it found, or nothing at all
when it failed. The default delay stays in either case. -/
structure AllOrNothing {φ : Type} (s : Script) (found : Except LoadFault (List Command))
    (loaded : Script) (fault : Option φ) : Prop where
  delay : loaded.delay = s.delay
  all : ∀ cs, found = .ok cs → fault = none ∧ loaded.commands = cs ∧ loaded.loaded = true
  refused : ∀ f, found = .error f → fault ≠ none
  nothing : fault ≠ none → loaded.commands = s.commands ∧ loaded.loaded = s.loaded

theorem allOrNothing_of_fault {φ : Type} {s loaded : Script} {f : LoadFault} {fault : φ}
    (h : loaded = s ∨ loaded = s.endLoad) :
    AllOrNothing s (.error f) loaded (some fault) := by
  rcases h with rfl | rfl
  · exact ⟨rfl, nofun, nofun, fun _ => ⟨rfl, rfl⟩⟩
  · exact ⟨rfl, nofun, nofun, fun _ => ⟨rfl, rfl⟩⟩

theorem tryLoadFrom_allOrNothing (s : Script) (source : Source) :
    AllOrNothing s source.commands (s.tryLoadFrom source).1 (s.tryLoadFrom source).2 := by
  rw [tryLoadFrom_eq]
  cases source.commands with
  | ok cs =>
      refine ⟨rfl, fun cs' same => ?_, nofun, fun failed => absurd rfl failed⟩
      cases same
      exact ⟨rfl, rfl, rfl⟩
  | error fault => exact allOrNothing_of_fault (.inr rfl)

theorem tryLoad_allOrNothing (s : Script) (disk : Disk) :
    AllOrNothing s (s.fileCommands disk) (s.tryLoad disk).1 (s.tryLoad disk).2 := by
  rw [tryLoad, fileCommands]
  cases sourceAt disk s.path with
  | ok source => exact s.tryLoadFrom_allOrNothing source
  | error fault => exact allOrNothing_of_fault (.inl rfl)

/-- The same faults, told in other words. -/
theorem AllOrNothing.map {φ ψ : Type} {s loaded : Script}
    {found : Except LoadFault (List Command)} {fault : Option φ}
    (h : AllOrNothing s found loaded fault) (f : φ → ψ) :
    AllOrNothing s found loaded (fault.map f) where
  delay := h.delay
  all cs found := by
    obtain ⟨none, rest⟩ := h.all cs found
    exact ⟨Option.map_eq_none_iff.mpr none, rest⟩
  refused f found none := h.refused f found (Option.map_eq_none_iff.mp none)
  nothing failed := h.nothing (fun none => failed (none ▸ rfl))

section

variable {σ : Type} (host : Host σ)

/-- Between two states the host was only asked to log: any trace of waits and actions that it
keeps is the same. -/
def Silent (state state' : σ) : Prop :=
  ∀ (τ : Type) (trace : σ → τ), (∀ r st, trace (host.note r st) = trace st) →
    trace state' = trace state

theorem silent_noteAll (records : List Record) (state : σ) :
    Silent host state (host.noteAll records state) := by
  intro τ trace blind
  induction records generalizing state with
  | nil => rfl
  | cons r rest ih => exact (ih (host.note r state)).trans (blind r state)

/-- What a run logs that has to load first, up to the end of the load. -/
def openingRecords (s : Script) (disk : Disk) : List Record :=
  ⟨.debug, utf8 "loading script before run", [(utf8 "path", s.path)]⟩ :: s.fileRecords disk

theorem run_of_loaded {s : Script} (loaded : s.loaded = true) (disk : Disk) (state : σ) :
    s.run host disk state = s.runLoaded host state := by
  simp only [run, loaded, ite_true]

/-- A run that has to load, and can, runs the commands that the file holds. -/
theorem run_of_commands {s : Script} {disk : Disk} (unloaded : s.loaded = false)
    {cs : List Command} (found : s.fileCommands disk = .ok cs) (state : σ) :
    s.run host disk state =
      ({ s.endLoad with commands := cs, loaded := true } : Script).runLoaded host
        (host.noteAll (s.openingRecords disk) state) := by
  simp only [run, unloaded, loadNoting, tryLoad_of_ok found]
  rfl

/-- A run that has to load, and cannot, stops with the fault of the load. -/
theorem run_of_error {s : Script} {disk : Disk} (unloaded : s.loaded = false)
    {fault : LoadFault} (found : s.fileCommands disk = .error fault) (state : σ) :
    s.run host disk state =
      (((s.tryLoad disk).1, host.noteAll (s.openingRecords disk) state),
        some (fault.fault s.path)) := by
  simp only [run, unloaded, loadNoting, tryLoad_of_error found]
  rfl

/-- What a run comes to: the commands that were loaded before, those of the file, or the fault of
the load. -/
theorem run_cases (s : Script) (disk : Disk) (state : σ) :
    s.run host disk state = s.runLoaded host state ∨
    (∃ cs, s.fileCommands disk = .ok cs ∧
      s.run host disk state =
        ({ s.endLoad with commands := cs, loaded := true } : Script).runLoaded host
          (host.noteAll (s.openingRecords disk) state)) ∨
    ∃ fault, s.fileCommands disk = .error fault ∧
      s.run host disk state =
        (((s.tryLoad disk).1, host.noteAll (s.openingRecords disk) state),
          some (fault.fault s.path)) := by
  cases loaded : s.loaded with
  | true => exact .inl (run_of_loaded host loaded disk state)
  | false =>
      cases found : s.fileCommands disk with
      | ok cs => exact .inr (.inl ⟨cs, rfl, run_of_commands host loaded found state⟩)
      | error fault => exact .inr (.inr ⟨fault, rfl, run_of_error host loaded found state⟩)

/-- A run that had to load and could not is that load, with one record in front. -/
theorem run_of_fault {s : Script} {disk : Disk} (unloaded : s.loaded = false)
    (failed : (s.tryLoad disk).2 ≠ none) (state : σ) :
    ∃ state', Silent host state state' ∧
      s.run host disk state = (((s.tryLoad disk).1, state'),
        (s.tryLoad disk).2.map (LoadFault.fault s.path)) := by
  cases found : s.fileCommands disk with
  | ok cs => exact absurd (congrArg Prod.snd (tryLoad_of_ok found)) failed
  | error fault =>
      rw [run_of_error host unloaded found, tryLoad_of_error found]
      exact ⟨_, silent_noteAll host _ state, rfl⟩

/-- A load that fails, for whatever reason and wherever in the text, leaves the commands, the
mark that a load was completed and the default delay as they were; one that succeeds takes over
the commands and leaves the default delay too. No load does more to the host than to log, nor
does a run that had to load and could not. -/
theorem load_all_or_nothing (s : Script) (source : Source) (disk : Disk) (state : σ) :
    let text := s.loadFromNoting host source state
    let file := s.loadNoting host disk state
    let run := s.run host disk state
    (AllOrNothing s source.commands text.1.1 text.2 ∧ Silent host state text.1.2) ∧
    (AllOrNothing s (s.fileCommands disk) file.1.1 file.2 ∧ Silent host state file.1.2) ∧
    (s.loaded = false → file.2 ≠ none →
      run.2 = file.2 ∧ AllOrNothing s (s.fileCommands disk) run.1.1 run.2 ∧
      Silent host state run.1.2) := by
  refine ⟨⟨(s.tryLoadFrom_allOrNothing source).map _, silent_noteAll host _ state⟩,
    ⟨(s.tryLoad_allOrNothing disk).map _, silent_noteAll host _ state⟩, ?_⟩
  intro unloaded failed
  have failed : (s.tryLoad disk).2 ≠ none := fun none => failed (by simp [loadNoting, none])
  obtain ⟨state', silent, h⟩ := run_of_fault host unloaded failed state
  rw [h]
  exact ⟨rfl, (s.tryLoad_allOrNothing disk).map _, silent⟩

end

/-- A reload that fails behind a change of the default delay and a repetition, and a run that
finds a directory. -/
theorem load_all_or_nothing_reload :
    let host := Rehearsal.host (fun (_ : Unit) _ => ((), none)) .recorded true true
    let first : Script := { path := utf8 "a", delay := 3 }
    let s := (first.tryLoadFrom ⟨utf8 "STRING a", none⟩).1
    let start : Rehearsal Unit := { recorder := ⟨(), #[]⟩ }
    let disk : Disk := fun _ => .ok .directory
    let reload := s.loadFromNoting host ⟨utf8 "DEFAULT_DELAY 9\nREPEAT 2\nREPEAT", none⟩ start
    let run := first.run host disk start
    (reload.2 ≠ none ∧ reload.1.1.commands = s.commands ∧ reload.1.1.loaded = true ∧
      reload.1.1.delay = 3 ∧ reload.1.2.events = #[]) ∧
    (run.2 ≠ none ∧ run.1.1.loaded = false ∧ run.1.2.events = #[]) := by
  intro host first s start disk reload run
  obtain ⟨failed, loaded, unread⟩ : reload.2 ≠ none ∧ s.loaded = true ∧
      (first.loadNoting host disk start).2 ≠ none := by
    decide +kernel
  have blind (record : Record) (r : Rehearsal Unit) : (host.note record r).events = r.events := rfl
  obtain ⟨⟨text, silent⟩, -, -⟩ := load_all_or_nothing host s
    ⟨utf8 "DEFAULT_DELAY 9\nREPEAT 2\nREPEAT", none⟩ disk start
  obtain ⟨-, -, unloaded⟩ := load_all_or_nothing host first ⟨[], none⟩ disk start
  obtain ⟨same, nothing, quiet⟩ := unloaded rfl unread
  obtain ⟨commands, flag⟩ := text.nothing failed
  have stopped : run.2 ≠ none := fun none => unread (same.symm.trans none)
  exact ⟨⟨failed, commands, flag.trans loaded, text.delay, silent _ _ blind⟩,
    stopped, (nothing.nothing stopped).2, quiet _ _ blind⟩

end Script
end KeyScript
