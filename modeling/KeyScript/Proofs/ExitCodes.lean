import KeyScript.Proofs.Agreement
import KeyScript.Proofs.DelayRange
import KeyScript.Proofs.FirstProblem
import KeyScript.Proofs.Interruption
import KeyScript.Proofs.Presses

/-!
What the exit code of a dry run tells. It is decided by the file of the script,
read line by line up to the first that is no statement, and, when all lines are
good, by the trace of its commands. A file that breaks off has the code of a
usage error, and not that of a script that cannot be read.
-/

namespace KeyScript

/-- The text of the regular file at a path, if there is one and it can be opened. -/
def textAt? (disk : Disk) (path : Text) : Option Source :=
  match disk path with
  | .ok (.file content) => some { text := content }
  | .ok (.damaged content fault) =>
    some { text := content, broken := some [.plain (fault.report (utf8 "read") path)] }
  | _ => none

theorem textAt?_eq_some {disk : Disk} {path : Text} {source : Source}
    (h : textAt? disk path = some source) (d : Int) :
    Script.find disk path d = .ok { path := path, delay := d } ∧
      Script.sourceAt disk path = .ok source ∧
      ∀ cause, source.broken = some cause → ∃ message, cause = [.plain message] := by
  simp only [textAt?] at h
  split at h
  · rename_i entry
    cases h
    simp [Script.find, Script.sourceAt, entry]
  · rename_i entry
    cases h
    simp [Script.find, Script.sourceAt, entry]
  · cases h

theorem textAt?_eq_none {disk : Disk} {path : Text} (h : textAt? disk path = none) (d : Int) :
    (∃ fault, Script.find disk path d = .error fault) ∨
      Script.find disk path d = .ok { path := path, delay := d } ∧
        ∃ message, Script.sourceAt disk path = .error (.notOpened [.plain message]) := by
  simp only [textAt?] at h
  cases entry : disk path with
  | error fault => cases fault <;> simp [Script.find, entry]
  | ok found =>
      rw [entry] at h
      cases found with
      | file content | damaged content fault => cases h
      | directory | device => simp [Script.find, entry]
      | locked fault => simp [Script.find, Script.sourceAt, entry]

namespace Failure

theorem exitCode_path (path : Text) (fault : PathFault) : (fault.failure path).exitCode = 2 := by
  cases fault <;> rfl

theorem exitCode_attributed (c : Command) {f : Failure} (h : f.any Layer.isParse = false) :
    exitCode (attributed c f) = 4 := by
  have execution := any_attributed c f
  have plain : (attributed c f).any Layer.isParse = false := by
    rw [attributed]
    split
    · exact h
    · exact h
  have filled : (attributed c f).isEmpty = false := by
    cases empty : attributed c f with
    | nil =>
        rw [empty] at execution
        cases execution
    | cons layer rest => rfl
  simp [exitCode, filled, plain, execution]

end Failure

namespace Rule

/-- What the rules refuse with is fixed: only what they let pass is counted down. -/
theorem refusals_guard (rules : List Rule) (action : Action) :
    (guard rules action).1.map refusal = rules.map refusal := by
  induction rules with
  | nil => rfl
  | cons rule rest ih =>
      simp only [guard]
      split
      · split
        · rfl
        · simp only [List.map_cons, ih]
      · simp only [List.map_cons, ih]

theorem mem_refusals_of_guard {rules : List Rule} {action : Action} {f : Failure}
    (h : (guard rules action).2 = some f) : f ∈ rules.map refusal := by
  induction rules with
  | nil => cases h
  | cons rule rest ih =>
      simp only [guard] at h
      split at h
      · split at h
        · cases h
          exact List.mem_cons_self
        · exact List.mem_cons_of_mem _ (ih h)
      · exact List.mem_cons_of_mem _ (ih h)

end Rule

namespace Rehearsal

/-- No rule of the recorder refuses an action as a line that is no statement. -/
def Apart (r : Rehearsal (List Rule)) : Prop :=
  ∀ f ∈ r.recorder.memory.map Rule.refusal, f.any Layer.isParse = false

theorem keeps_apart (timed noted : Bool) :
    (Rehearsal.host Rule.guard .recorded timed noted).Keeps Apart where
  sleep := by
    intro length r h
    cases timed <;> exact h
  act := by
    rintro action _ r ⟨⟩ h
    have kept := Rule.refusals_guard r.recorder.memory action
    simp only [perform, Recorder.record]
    cases r.countdown.isOver with
    | true => exact h
    | false =>
        rcases asked : Rule.guard r.recorder.memory action with ⟨memory, _ | refusal⟩
        all_goals
          rw [asked] at kept
          intro f member
          exact h f (kept ▸ member)
  note := by
    intro record r h
    cases noted <;> exact h

theorem not_parse_of_canceled {countdown : Countdown} {f : Failure}
    (h : countdown.failure = some f) : f.any Layer.isParse = false := by
  simp only [Countdown.failure] at h
  split at h
  · cases h
    rfl
  · cases h

theorem not_parse_of_answers {timed noted : Bool} {f : Failure}
    (h : (Rehearsal.host Rule.guard .recorded timed noted).Answers Apart f) :
    f.any Layer.isParse = false := by
  cases h with
  | sleep length r apart answer => cases timed <;> exact not_parse_of_canceled answer
  | act action r keyboard apart answer =>
      cases keyboard
      simp only [perform, Recorder.record] at answer
      cases ended : r.countdown.isOver with
      | true =>
          rw [ended] at answer
          cases answer
          rfl
      | false =>
          rw [ended] at answer
          rcases asked : Rule.guard r.recorder.memory action with ⟨memory, _ | refusal⟩
          · rw [asked] at answer
            cases answer
          · rw [asked] at answer
            cases answer
            exact apart f (Rule.mem_refusals_of_guard (congrArg Prod.snd asked))

/-- The countdown of a run whose waits are not counted: it is over from the start, or never. -/
def steady (countdown : Countdown) : Countdown :=
  if countdown.isOver then countdown else none

/-- Rehearsals that differ in their countdowns, one being steady. -/
def Steadied {μ : Type} (r r' : Rehearsal μ) : Prop :=
  r'.recorder = r.recorder ∧ r'.countdown = steady r.countdown

theorem tick_steady (countdown : Countdown) : (steady countdown).tick = steady countdown := by
  match countdown with
  | none | some 0 | some (n + 1) => rfl

theorem isOver_steady (countdown : Countdown) :
    (steady countdown).isOver = countdown.isOver := by
  match countdown with
  | none | some 0 | some (n + 1) => rfl

/-- A rehearsal that does not count its waits does what one with a steady countdown does. -/
theorem agrees_steadied {μ : Type} (guard : Guard μ) (noted : Bool) :
    (Rehearsal.host guard .recorded false noted).Agrees
      (Rehearsal.host guard .recorded true noted) (fun _ => True) Steadied where
  sleep := by
    rintro length r r' - ⟨recorder, countdown⟩
    have ticked : r'.countdown.tick = steady r.countdown := by rw [countdown, tick_steady]
    refine ⟨?_, recorder, ticked⟩
    change r'.countdown.tick.failure = r.countdown.failure
    rw [ticked, Countdown.failure, isOver_steady]
    rfl
  keyboard := rfl
  act := by
    rintro action _ _ r r' ⟨⟩ ⟨⟩ ⟨recorder, countdown⟩
    simp only [perform, recorder, countdown, isOver_steady]
    rcases r.recorder.record guard r.countdown.isOver action with ⟨kept, _ | refusal⟩
    · exact ⟨rfl, rfl, rfl⟩
    · exact ⟨rfl, rfl, rfl⟩
  note := by
    rintro record r r' ⟨recorder, countdown⟩
    cases noted <;> exact ⟨recorder, countdown⟩

/-- A rehearsal of what a file holds goes through exactly when its trace is not cut. -/
theorem run_none_iff {μ : Type} (guard : Guard μ) (noted : Bool) {script : Script}
    (unloaded : script.loaded = false) {disk : Disk} {cs : List Command}
    (found : script.fileCommands disk = .ok cs) (within : InRange script.delay)
    (r : Rehearsal μ) :
    (script.run (Rehearsal.host guard .recorded true noted) disk r).2 = none ↔
      cutAt guard r.recorder.memory r.countdown (expansion script.delay cs) = none := by
  let host := Rehearsal.host guard .recorded true noted
  obtain ⟨source, -, commands⟩ := Script.fileCommands_eq_ok found
  have trace := eventsOf_runMoves_eq_expansion (linked_commands commands)
    (commands_millis_le commands) within.1 within.2
  have silent := Script.silent_noteAll host (script.openingRecords disk) r
  have recorder : (host.noteAll (script.openingRecords disk) r).recorder = r.recorder :=
    silent _ Rehearsal.recorder fun record r => by cases noted <;> rfl
  have countdown : (host.noteAll (script.openingRecords disk) r).countdown = r.countdown :=
    silent _ Rehearsal.countdown fun record r => by cases noted <;> rfl
  have events := (Script.runLoaded_events guard noted
    { script.endLoad with commands := cs, loaded := true }
    (host.noteAll (script.openingRecords disk) r)).2
  simp only [recorder, countdown] at events
  rw [Script.run_of_commands host unloaded found, ← trace]
  exact events

end Rehearsal

namespace Surroundings

/-- How a dry run starts. -/
def start (w : Surroundings) (settings : Settings) : Rehearsal (List Rule) where
  recorder := { memory := w.standIn.getD [] }
  journal := { level := some settings.logLevel }
  countdown := w.countdown

/-- The host of a dry run. -/
def host (w : Surroundings) : Host (Rehearsal (List Rule)) :=
  Rehearsal.host Rule.guard .recorded w.timed true

/-- Where the trace of a dry run is cut short, if it is: by a rule that refuses an action, or by
the run being called off. Waits that are not noted are not counted. -/
def cut (w : Surroundings) (d : Int) (cs : List Command) : Option Nat :=
  cutAt Rule.guard (w.standIn.getD [])
    (if w.timed then w.countdown else Rehearsal.steady w.countdown) (expansion d cs)

theorem run_none_iff_cut (w : Surroundings) (settings : Settings) {script : Script}
    (unloaded : script.loaded = false) {cs : List Command}
    (found : script.fileCommands w.disk = .ok cs) (within : InRange script.delay) :
    (script.run w.host w.disk (w.start settings)).2 = none ↔ w.cut script.delay cs = none := by
  rw [host, cut]
  cases w.timed with
  | true => exact Rehearsal.run_none_iff Rule.guard true unloaded found within _
  | false =>
      let steadied : Rehearsal (List Rule) :=
        { w.start settings with countdown := Rehearsal.steady w.countdown }
      have related : Rehearsal.Steadied (w.start settings) steadied := ⟨rfl, rfl⟩
      have free (x : Move) : x.Waits fun _ => True := by cases x <;> trivial
      have same := ((Rehearsal.agrees_steadied Rule.guard true).run unloaded w.disk
        (fun _ _ x _ => free x) related).2.1
      rw [← same]
      exact Rehearsal.run_none_iff Rule.guard true unloaded found within steadied

end Surroundings

section

variable {w : Surroundings} {words : List Text} {o : Options} {path : Text} {settings : Settings}
  (asked : Invocation.ofWords words = .ok (.work .run o path)) (dry : o.dryRun = true)
  (accepted : o.settings w = .ok settings)
include asked dry accepted

theorem dry_run_failure :
    (Finish.ofWords w words).failure =
      match CommandLine.findScript w settings path with
      | .error f => f
      | .ok script =>
        ((script.run w.host w.disk (w.start settings)).2.map Fault.toFailure).getD [] := by
  have backend : settings.backend = Backend.dryRun := by
    simp only [Options.settings] at accepted
    split at accepted
    · cases accepted
    · split at accepted
      · cases accepted
      · cases accepted
        exact if_pos dry
  have outlet : ∃ echoed, Outlet.ofSettings settings w.standIn.isSome = .ok (.recorder echoed) := by
    cases w.standIn.isSome with
    | true => exact ⟨false, rfl⟩
    | false => exact ⟨true, if_pos backend⟩
  obtain ⟨echoed, outlet⟩ := outlet
  simp only [Finish.ofWords, asked, CommandLine.perform, CommandLine.run, accepted, outlet]
  cases CommandLine.findScript w settings path with
  | error f => rfl
  | ok script => rfl

theorem exitCode_of_unreadable (h : textAt? w.disk path = none) :
    (Finish.ofWords w words).code = 2 := by
  rw [Finish.code, dry_run_failure asked dry accepted, CommandLine.findScript]
  obtain ⟨fault, missing⟩ | ⟨found, message, unopened⟩ := textAt?_eq_none h settings.defaultDelay
  · rw [missing]
    exact Failure.exitCode_path path fault
  · have file : Script.fileCommands { path := path, delay := settings.defaultDelay } w.disk =
        .error (.notOpened [.plain message]) := by
      rw [Script.fileCommands, unopened]
      rfl
    simp only [found, Script.run_of_error w.host rfl file]
    rfl

section

variable {source : Source} (text : textAt? w.disk path = some source)
include text

theorem dry_run_failure_of_text :
    let script : Script := { path := path, delay := settings.defaultDelay }
    script.fileCommands w.disk = source.commands ∧
      (Finish.ofWords w words).failure =
        ((script.run w.host w.disk (w.start settings)).2.map Fault.toFailure).getD [] := by
  intro script
  obtain ⟨found, opened, -⟩ := textAt?_eq_some text settings.defaultDelay
  have file : script.fileCommands w.disk = source.commands := by
    rw [Script.fileCommands, opened]
    rfl
  refine ⟨file, ?_⟩
  rw [dry_run_failure asked dry accepted, CommandLine.findScript, found]

theorem exitCode_of_error {fault : LoadFault} (h : source.commands = .error fault) :
    (Finish.ofWords w words).code = (fault.fault path).toFailure.exitCode := by
  obtain ⟨file, failure⟩ := dry_run_failure_of_text asked dry accepted text
  rw [h] at file
  rw [Finish.code, failure, Script.run_of_error w.host rfl file]
  rfl

theorem exitCode_of_malformed (h : ∃ line ∈ source.lines, Malformed line) :
    (Finish.ofWords w words).code = 3 := by
  obtain ⟨e, refused⟩ := Source.commands_of_malformed h
  rw [exitCode_of_error asked dry accepted text refused]
  rfl

theorem exitCode_of_cutShort (good : ∀ line ∈ source.lines, ¬ Malformed line)
    (h : source.CutShort) : (Finish.ofWords w words).code = 1 := by
  obtain ⟨-, -, broken⟩ := textAt?_eq_some text settings.defaultDelay
  obtain long | ⟨cause, failed, late⟩ := Source.fault_of_cutShort h
  · rw [exitCode_of_error asked dry accepted text (Source.commands_of_fault good long)]
    rfl
  · obtain ⟨message, rfl⟩ := broken cause failed
    rw [exitCode_of_error asked dry accepted text (Source.commands_of_fault good late)]
    rfl

section

variable {cs : List Command} (commands : source.commands = .ok cs)
include commands

theorem exitCode_of_done (h : w.cut settings.defaultDelay cs = none) :
    (Finish.ofWords w words).code = 0 := by
  obtain ⟨file, failure⟩ := dry_run_failure_of_text asked dry accepted text
  rw [commands] at file
  have within : InRange settings.defaultDelay := Options.settings_inRange accepted
  have done := (w.run_none_iff_cut settings rfl file within).mpr h
  rw [Finish.code, failure, done]
  rfl

/-- A run that is cut fails in a command, whatever refused it, unless a rule gives out that a line
is no statement. -/
theorem exitCode_of_failed (apart : (w.start settings).Apart)
    (h : w.cut settings.defaultDelay cs ≠ none) : (Finish.ofWords w words).code = 4 := by
  obtain ⟨file, failure⟩ := dry_run_failure_of_text asked dry accepted text
  rw [commands] at file
  have within : InRange settings.defaultDelay := Options.settings_inRange accepted
  have stopped := mt (w.run_none_iff_cut settings rfl file within).mp h
  obtain ⟨fault, stopped⟩ := Option.ne_none_iff_exists'.mp stopped
  have keeps := Rehearsal.keeps_apart w.timed true
  obtain ⟨early, refused, -⟩ | stops := keeps.run apart stopped
  · rw [file] at refused
    cases refused
  · rw [Finish.code, failure, stopped]
    cases stops with
    | failure c answers =>
        exact Failure.exitCode_attributed c (Rehearsal.not_parse_of_answers answers)
    | keyboard missing => cases missing

end
end
end

/-- How a dry run of the script at a path ends, told from its file, and the exit code for it. -/
inductive ExitsWith (w : Surroundings) (settings : Settings) (path : Text) : Nat → Prop where
  | done {source : Source} {cs : List Command} : textAt? w.disk path = some source →
      source.commands = .ok cs → w.cut settings.defaultDelay cs = none → ExitsWith w settings path 0
  /-- A file with good lines only breaks off: this is not told apart from a usage error. -/
  | brokenOff {source : Source} : textAt? w.disk path = some source →
      (∀ line ∈ source.lines, ¬ Malformed line) → source.CutShort → ExitsWith w settings path 1
  | unreadable : textAt? w.disk path = none → ExitsWith w settings path 2
  | malformed {source : Source} : textAt? w.disk path = some source →
      (∃ line ∈ source.lines, Malformed line) → ExitsWith w settings path 3
  | failed {source : Source} {cs : List Command} : textAt? w.disk path = some source →
      source.commands = .ok cs → w.cut settings.defaultDelay cs ≠ none → ExitsWith w settings path 4

/-- Every dry run ends in one of these ways. -/
theorem ExitsWith.exists (w : Surroundings) (settings : Settings) (path : Text) :
    ∃ code, ExitsWith w settings path code := by
  cases text : textAt? w.disk path with
  | none => exact ⟨2, .unreadable text⟩
  | some source =>
      by_cases bad : ∃ line ∈ source.lines, Malformed line
      · exact ⟨3, .malformed text bad⟩
      · have good : ∀ line ∈ source.lines, ¬ Malformed line :=
          fun line member wrong => bad ⟨line, member, wrong⟩
        by_cases short : source.CutShort
        · exact ⟨1, .brokenOff text good short⟩
        · obtain ⟨cs, commands⟩ :=
            Source.commands_of_whole good (Source.fault_of_not_cutShort short)
          by_cases cut : w.cut settings.defaultDelay cs = none
          · exact ⟨0, .done text commands cut⟩
          · exact ⟨4, .failed text commands cut⟩

/-- With good flags and settings, the exit code of a dry run says how it ended. -/
theorem dry_run_exit_code {w : Surroundings} {words : List Text} {o : Options} {path : Text}
    {settings : Settings} (asked : Invocation.ofWords words = .ok (.work .run o path))
    (dry : o.dryRun = true) (accepted : o.settings w = .ok settings)
    (apart : ∀ rule ∈ w.standIn.getD [], rule.refusal.any Layer.isParse = false) (code : Nat) :
    (Finish.ofWords w words).code = code ↔ ExitsWith w settings path code := by
  have rules : (w.start settings).Apart := by
    intro f refused
    obtain ⟨rule, member, rfl⟩ := List.mem_map.mp refused
    exact apart rule member
  have decides {code : Nat} (h : ExitsWith w settings path code) :
      (Finish.ofWords w words).code = code := by
    cases h with
    | done text commands cut => exact exitCode_of_done asked dry accepted text commands cut
    | brokenOff text good short => exact exitCode_of_cutShort asked dry accepted text good short
    | unreadable text => exact exitCode_of_unreadable asked dry accepted text
    | malformed text bad => exact exitCode_of_malformed asked dry accepted text bad
    | failed text commands cut =>
        exact exitCode_of_failed asked dry accepted text commands rules cut
  constructor
  · rintro rfl
    obtain ⟨code, ends⟩ := ExitsWith.exists w settings path
    exact decides ends ▸ ends
  · exact decides

/-- The second round of a repetition is refused by a rule that lets one action pass. -/
theorem dry_run_exit_code_refused :
    let disk : Disk := fun path =>
      if path = utf8 "s" then .ok (.file (utf8 "STRING a\nREPEAT 1")) else .error .notFound
    let rule : Rule := ⟨utf8 "type", 1, [.failSafe]⟩
    let w : Surroundings := { disk := disk, home := [], standIn := some [rule] }
    let words := [utf8 "--dry-run", utf8 "s"]
    let o : Options := { dryRun := true }
    let settings : Settings := { backend := Backend.dryRun }
    Invocation.ofWords words = .ok (.work .run o (utf8 "s")) ∧ o.settings w = .ok settings ∧
      rule.refusal.any Layer.isParse = false ∧ (Finish.ofWords w words).code = 4 ∧
      ExitsWith w settings (utf8 "s") 4 := by
  intro disk rule w words o settings
  have asked : Invocation.ofWords words = .ok (.work .run o (utf8 "s")) := rfl
  have accepted : o.settings w = .ok settings := rfl
  have apart : ∀ rule ∈ w.standIn.getD [], rule.refusal.any Layer.isParse = false :=
    List.forall_mem_singleton.mpr rfl
  have code : (Finish.ofWords w words).code = 4 := by decide +kernel
  exact ⟨asked, accepted, rfl, code, (dry_run_exit_code asked rfl accepted apart 4).mp code⟩

theorem physicalLines_of_long {t : Text} (one : newline ∉ t) (long : lineLimit ≤ t.length) :
    physicalLines t = [t] := by
  have filled : t ≠ [] := by
    rintro rfl
    exact absurd long (by decide)
  simp [physicalLines, Text.split_of_notMem one, filled]

/-- A file of one line that is too long cannot be read to its end, and has the exit code of a usage
error, not that of a script that cannot be read. -/
theorem dry_run_exit_code_long_line :
    let text : Text := List.replicate lineLimit 98
    let disk : Disk := fun path =>
      if path = utf8 "s" then .ok (.file text) else .error .notFound
    let w : Surroundings := { disk := disk, home := [] }
    textAt? disk (utf8 "s") = some ⟨text, none⟩ ∧ Source.CutShort ⟨text, none⟩ ∧
      (Finish.ofWords w [utf8 "--dry-run", utf8 "s"]).code = 1 := by
  intro text
  have long : lineLimit ≤ text.length := Nat.le_of_eq List.length_replicate.symm
  have one : newline ∉ text := fun member => absurd (List.eq_of_mem_replicate member) (by decide)
  -- From here on all that counts of the text is that it is one line, and how long.
  clear_value text
  intro disk w
  have lines := physicalLines_of_long one long
  have short : Source.CutShort ⟨text, none⟩ :=
    .inl ⟨text, lines ▸ List.mem_singleton_self text, long⟩
  have good : ∀ line ∈ Source.lines ⟨text, none⟩, ¬ Malformed line := by
    simp [Source.lines, linesWithin, lines, Nat.not_lt.mpr long]
  have found : textAt? disk (utf8 "s") = some ⟨text, none⟩ := rfl
  have accepted : Options.settings { dryRun := true } w = .ok { backend := Backend.dryRun } := rfl
  exact ⟨found, short, exitCode_of_cutShort rfl rfl accepted found good short⟩

end KeyScript
