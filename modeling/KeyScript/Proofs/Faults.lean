import KeyScript.Proofs.Links
import KeyScript.Proofs.Loading
import KeyScript.Proofs.Moves

/-!
Why loads and runs stop. A load stops at a line that is no statement, or because
its source did; a run stops because its host gave a failure, which is then
attributed to a command. A contract is broken only by a run without a keyboard.
-/

namespace KeyScript

theorem any_attributed (c : Command) (f : Failure) :
    (attributed c f).any Layer.isExecution = true := by
  rw [attributed]
  split
  · assumption
  · rfl

section

variable {σ : Type} (host : Host σ)

/-- A property of states that the host keeps, whatever it is asked for. -/
structure Host.Keeps (I : σ → Prop) : Prop where
  sleep : ∀ length {state}, I state → I (host.sleep length state).1
  act : ∀ action {perform state}, host.keyboard = some perform → I state →
    I (perform action state).1
  note : ∀ {record state}, I state → I (host.note record state)

/-- A failure that the host can answer with, in a state with `I`. -/
inductive Host.Answers (I : σ → Prop) (f : Failure) : Prop where
  | sleep (length : Nanos) (state : σ) :
      I state → (host.sleep length state).2 = some f → Answers I f
  | act {perform : Action → σ → σ × Option Failure} (action : Action) (state : σ) :
      host.keyboard = some perform → I state → (perform action state).2 = some f → Answers I f

/-- The faults of a run: failures of the host, attributed to a command, and the want of a
keyboard. -/
inductive Host.Stops (I : σ → Prop) : Fault → Prop where
  | failure (c : Command) {f : Failure} : host.Answers I f → Stops I (.failure (attributed c f))
  | keyboard : host.keyboard = none → Stops I (.violation missingKeyboard)

/-- An outcome in a state with `I`, with a fault of the host if it has one. -/
def Host.Leaves (I : σ → Prop) (out : Outcome σ) : Prop :=
  I out.1.host ∧ ∀ fault, out.2 = some fault → host.Stops I fault

variable {host}

theorem Host.keeps_true : host.Keeps fun _ => True :=
  ⟨fun _ _ _ => trivial, fun _ _ _ _ _ => trivial, fun _ => trivial⟩

namespace Host.Keeps

variable {I : σ → Prop} (keeps : host.Keeps I)
include keeps

theorem waitFor (c : Command) (ms : Int) {m : Machine σ} (h : I m.host) :
    host.Leaves I (KeyScript.waitFor host c ms m) := by
  have after := keeps.sleep (nanosOfMillis ms) h
  simp only [KeyScript.waitFor]
  rcases slept : host.sleep (nanosOfMillis ms) m.host with ⟨s, _ | f⟩
  · rw [slept] at after
    exact ⟨after, fun _ none => by cases none⟩
  · rw [slept] at after
    refine ⟨after, ?_⟩
    rintro _ ⟨⟩
    exact .failure c (.sleep _ m.host h (congrArg Prod.snd slept))

theorem performFor (c : Command) (action : Action) {m : Machine σ} (h : I m.host) :
    host.Leaves I (KeyScript.performFor host c action m) := by
  simp only [KeyScript.performFor]
  cases keyboard : host.keyboard with
  | none =>
      refine ⟨h, ?_⟩
      rintro _ ⟨⟩
      exact .keyboard keyboard
  | some perform =>
      have after := keeps.act action keyboard h
      simp only
      rcases acted : perform action m.host with ⟨s, _ | f⟩
      · rw [acted] at after
        exact ⟨after, fun _ none => by cases none⟩
      · rw [acted] at after
        refine ⟨after, ?_⟩
        rintro _ ⟨⟩
        exact .failure c (.act action m.host keyboard h (congrArg Prod.snd acted))

theorem perform (x : Move) {m : Machine σ} (h : I m.host) :
    host.Leaves I (x.perform host m) := by
  cases x with
  | note r => exact ⟨keeps.note h, fun _ none => by cases none⟩
  | setDelay ms => exact ⟨h, fun _ none => by cases none⟩
  | wait c ms => exact keeps.waitFor c ms h
  | act c action => exact keeps.performFor c action h

theorem performAll (xs : List Move) {m : Machine σ} (h : I m.host) :
    host.Leaves I (KeyScript.performAll host xs m) := by
  induction xs generalizing m with
  | nil => exact ⟨h, fun _ none => by cases none⟩
  | cons x xs ih =>
      have first := keeps.perform x h
      simp only [KeyScript.performAll]
      rcases moved : x.perform host m with ⟨m', _ | fault⟩
      · rw [moved] at first
        exact ih first.1
      · rw [moved] at first
        exact first

theorem noteAll (records : List Record) {state : σ} (h : I state) :
    I (host.noteAll records state) := by
  induction records generalizing state with
  | nil => exact h
  | cons r rest ih => exact ih (keeps.note h)

theorem runLoaded {s : Script} {state : σ} (h : I state) {fault : Fault}
    (stopped : (s.runLoaded host state).2 = some fault) : host.Stops I fault := by
  obtain ⟨records, run⟩ := s.runLoaded_eq_performAll host state
  rw [run] at stopped
  exact (keeps.performAll s.moves (m := ⟨s.delay, state⟩) h).2 fault stopped

/-- A run stops because of its load, or because of its host. -/
theorem run {s : Script} {disk : Disk} {state : σ} (h : I state) {fault : Fault}
    (stopped : (s.run host disk state).2 = some fault) :
    (∃ early, s.fileCommands disk = .error early ∧ fault = early.fault s.path) ∨
      host.Stops I fault := by
  obtain run | ⟨cs, -, run⟩ | ⟨early, found, run⟩ := s.run_cases host disk state
  · rw [run] at stopped
    exact .inr (keeps.runLoaded h stopped)
  · rw [run] at stopped
    exact .inr (keeps.runLoaded (keeps.noteAll _ h) stopped)
  · rw [run] at stopped
    cases stopped
    exact .inl ⟨early, found, rfl⟩

end Host.Keeps

theorem execute_stops {c : Command} {suppressed : Bool} {m : Machine σ} {fault : Fault}
    (h : (c.execute host suppressed m).2 = some fault) : host.Stops (fun _ => True) fault := by
  rw [execute_eq_performAll] at h
  exact (Host.keeps_true.performAll _ trivial).2 fault h

/-- With a keyboard, no run breaks a contract. -/
theorem Host.Stops.ne_violation {I : σ → Prop} {fault : Fault} (h : host.Stops I fault)
    (keyboard : host.keyboard.isSome) (v : Violation) : fault ≠ .violation v := by
  cases h with
  | failure c answers => simp
  | keyboard none =>
      rw [none] at keyboard
      cases keyboard

end

/-- At a line that can be, a text that is no statement is refused, and all else is read. -/
theorem parse_of_nonneg {raw : Text} (written : raw.trim ≠ []) {line : Int} (h : 0 ≤ line)
    (recent : List Command) :
    (∃ problem, Statement.read true raw.trim = .error problem ∧
      Command.parse raw line (some recent) = .error (.rejected ⟨line, raw.trim, problem⟩)) ∨
    ∃ statement c, Statement.read true raw.trim = .ok statement ∧
      Command.parse raw line (some recent) = .ok c := by
  have filled : raw.trim.isEmpty = false := by simpa using written
  simp only [Command.parse, filled, Option.isSome_some, Option.getD_some]
  cases read : Statement.read true raw.trim with
  | error problem => exact .inl ⟨problem, rfl, rfl⟩
  | ok statement =>
      cases statement with
      | plain deed => exact .inr ⟨_, _, rfl, rfl⟩
      | again count =>
          rw [previous_of_nonneg recent h]
          exact .inr ⟨_, _, rfl, rfl⟩

/-- Lines are refused by what they say only: their numbers are never negative. -/
theorem readLines_error {n : Nat} {recent : List Command} {lines : List Text} {fault : LoadFault}
    (h : readLines n recent lines = .error fault) : ∃ e, fault = .parse e := by
  induction lines generalizing n recent with
  | nil => cases h
  | cons line rest ih =>
      simp only [readLines] at h
      split at h
      · exact ih h
      · cases parsed : Command.parse line.trim n (some recent) with
        | ok c =>
            rw [parsed] at h
            exact ih h
        | error early =>
            rw [parsed] at h
            cases h
            by_cases written : line.trim.trim = []
            · simp only [Command.parse, written, List.isEmpty_nil, ite_true] at parsed
              cases parsed
              exact ⟨_, rfl⟩
            · obtain ⟨problem, -, refused⟩ | ⟨statement, c, -, taken⟩ :=
                parse_of_nonneg written (Int.natCast_nonneg n) recent
              · rw [parsed] at refused
                cases refused
                exact ⟨_, rfl⟩
              · rw [parsed] at taken
                cases taken

theorem Source.commands_error {source : Source} {fault : LoadFault}
    (h : source.commands = .error fault) (v : Violation) : fault ≠ .violation v := by
  simp only [Source.commands] at h
  split at h
  · rename_i early
    cases h
    obtain ⟨e, rfl⟩ := readLines_error early
    simp
  · split at h
    · rename_i late
      cases h
      simp only [Source.fault] at late
      split at late
      · cases late
        simp
      · obtain ⟨cause, -, rfl⟩ := Option.map_eq_some_iff.mp late
        simp
    · cases h

namespace Script

/-- No load breaks a contract. -/
theorem tryLoadFrom_ne_violation (s : Script) (source : Source) (v : Violation) :
    (s.tryLoadFrom source).2 ≠ some (.violation v) := by
  rw [tryLoadFrom_eq]
  cases found : source.commands with
  | ok cs => simp
  | error fault => simpa using Source.commands_error found v

theorem sourceAt_error {disk : Disk} {path : Text} {fault : LoadFault}
    (h : sourceAt disk path = .error fault) : ∃ cause, fault = .notOpened cause := by
  simp only [sourceAt] at h
  split at h <;> cases h
  all_goals exact ⟨_, rfl⟩

theorem fileCommands_error {s : Script} {disk : Disk} {fault : LoadFault}
    (h : s.fileCommands disk = .error fault) (v : Violation) : fault ≠ .violation v := by
  rw [fileCommands] at h
  cases opened : sourceAt disk s.path with
  | ok source =>
      rw [opened] at h
      exact Source.commands_error h v
  | error early =>
      rw [opened] at h
      cases h
      obtain ⟨cause, rfl⟩ := sourceAt_error opened
      simp

theorem tryLoad_ne_violation (s : Script) (disk : Disk) (v : Violation) :
    (s.tryLoad disk).2 ≠ some (.violation v) := by
  cases found : s.fileCommands disk with
  | ok cs =>
      rw [tryLoad_of_ok found]
      simp
  | error fault =>
      rw [tryLoad_of_error found]
      simpa using fileCommands_error found v

/-- With a keyboard, no run breaks a contract, whatever it has to load. -/
theorem run_ne_violation {σ : Type} {host : Host σ} (keyboard : host.keyboard.isSome) (s : Script)
    (disk : Disk) (state : σ) (v : Violation) :
    (s.run host disk state).2 ≠ some (.violation v) := by
  intro h
  obtain ⟨early, found, same⟩ | stops := Host.keeps_true.run trivial h
  · have allowed := fileCommands_error found
    cases early with
    | violation w => exact absurd rfl (allowed w)
    | parse e | lineTooLong | readFailed cause | notOpened cause => cases same
  · exact stops.ne_violation keyboard v rfl

end Script

end KeyScript
