import KeyScript.Proofs.Faults
import KeyScript.Proofs.PlanRun

/-!
The same machine on bare records. A command is here a record whose fields need
not fit its kind, which is any word, and what it repeats may be missing; so each
operation has to check what it relies on. The checks are those on the lookup of
an alias, on a line number, on a default delay, on the presence of a script, of
a keyboard and of a command to repeat, and on the kind of a command. Nothing is
logged. Records that are read from lines are those of commands, and do what
commands do.
-/

namespace KeyScript

/-- A record and the record it repeats. It belongs to a script, or has a default delay of its
own. -/
inductive Bare where
  | missing
  | of (step : Step) (owned : Bool) (ownDelay : Int) (target : Bare)
deriving DecidableEq, Repr

/-- The word an alias stands for, or the word itself: no lookup of an alias may fail. -/
def checkedCanonical (word : Text) : Except Violation Text :=
  if isAlias word then
    match resolveAlias word with
    | .ok target => .ok target
    | .error fault =>
      let failure := aliasMessage word fault.reason
      (requireNoFailure (some failure) (utf8 "resolving a known alias")).map fun _ => word
  else .ok word

/-- A count within its range, as any whole number. -/
def checkedCount (argument : Text) : Except CountFault Int :=
  match argument.trim.readDecimal with
  | .error fault => .error (.number fault argument.trim)
  | .ok n =>
    if n < 0 then .error .negative
    else if (maxMillis : Int) < n then .error .tooLarge
    else .ok n

namespace Bare

def line : Bare → Int
  | .missing => noLine
  | .of step _ _ _ => step.line

/-- The record, when there is one. -/
def present? : Bare → Option Bare
  | .missing => none
  | .of step owned ownDelay target => some (.of step owned ownDelay target)

/-- The target of a repetition with nothing before it. -/
def nothing : Bare :=
  .of { line := noLine, verb := Verb.comment.name, target := noLine, skipsDelay := true }
    false 0 .missing

/-- The nearest record before a line, the records being given latest first. -/
def previous (recent : List Bare) (line : Int) : Except Violation (Option Bare) :=
  (require .precondition (0 ≤ line)
    (utf8 "line must not be negative, got " ++ Text.ofInt line)).map fun _ =>
      recent.find? fun b => b.line < line

/-- Reads a line as a record that belongs to the script it is read for, if there is one. -/
def parse (raw : Text) (line : Int) (before : Option (List Bare)) : Except ParseFault Bare :=
  let text := raw.trim
  let reject (problem : Problem) : Except ParseFault Bare :=
    .error (.rejected ⟨line, text, problem⟩)
  let accept (step : Step) (target : Bare) : Except ParseFault Bare :=
    .ok (.of { step with line := line, raw := text, target := target.line } before.isSome 0 target)
  if text.isEmpty then .error (.rejected ⟨line, raw, .blank⟩)
  else
    let (word, after) := text.cut 32
    let argument := after.getD []
    if !isRecognized word then reject (.unknownWord word)
    else
      match checkedCanonical word with
      | .error v => .error (.violation v)
      | .ok verb =>
        match keyword? verb with
        | some .rem =>
          accept { verb := Verb.comment.name, text := argument, skipsDelay := true } .missing
        | some .string => accept { verb := Verb.typeText.name, text := argument } .missing
        | some .delay =>
          match checkedCount argument with
          | .error fault => reject (.badMillis word fault)
          | .ok ms => accept { verb := Verb.delay.name, millis := ms } .missing
        | some .defaultDelay =>
          if before.isNone then reject (.scriptOnly word)
          else
            match checkedCount argument with
            | .error fault => reject (.badMillis word fault)
            | .ok ms => accept { verb := Verb.setDefaultDelay.name, millis := ms } .missing
        | some .again =>
          if before.isNone then reject (.scriptOnly word)
          else
            match checkedCount argument with
            | .error fault => reject (.badCount word fault)
            | .ok count =>
              match previous (before.getD []) line with
              | .error v => .error (.violation v)
              | .ok found =>
                accept { verb := Verb.again.name, count := count } (found.getD nothing)
        | none =>
          match readKeys text.fields with
          | .error bad => reject (.unknownKey bad)
          | .ok keys => accept { verb := Verb.press.name, keys := keys } .missing

end Bare

section

variable {σ : Type} (host : Host σ)

/-- An outcome whose failure is the step's own, unless it is attributed already. -/
def Step.attribute (step : Step) : Outcome σ → Outcome σ
  | (m, some (.failure f)) => (m, some (.failure (step.attributed f)))
  | out => out

/-- Goes on with `next` after a check. -/
def Machine.afterCheck (m : Machine σ) (check : Except Violation Unit) (next : Outcome σ) :
    Outcome σ :=
  match check with
  | .ok () => next
  | .error v => (m, some (.violation v))

namespace Bare

/-- The wait in front of a record. -/
def waitBefore (step : Step) (owned : Bool) (ownDelay : Int) (suppressed : Bool) (m : Machine σ) :
    Outcome σ :=
  if suppressed || step.skipsDelay then (m, none)
  else step.wait host (if owned then m.delay else ownDelay) m

/-- What a record that repeats nothing does behind its wait. -/
def act (step : Step) (owned : Bool) (m : Machine σ) : Verb → Outcome σ
  | .comment | .again => (m, none)
  | .delay => step.wait host step.millis m
  | .setDefaultDelay =>
    m.afterCheck (requirePresent (if owned then some () else none) (utf8 "script")) <|
      match checkedDelay step.millis with
      | .ok delay => ({ m with delay := delay }, none)
      | .error v => (m, some (.violation v))
  | .typeText =>
    m.afterCheck (requirePresent host.keyboard (utf8 "port")) (step.act host (.type step.text) m)
  | .press =>
    m.afterCheck (requirePresent host.keyboard (utf8 "port")) (step.act host (.hotkey step.keys) m)

/-- Runs a record; `suppressed` leaves out its wait for the default delay. -/
def execute (suppressed : Bool) : Bare → Machine σ → Outcome σ
  | .missing, m => (m, some (.violation ⟨.precondition, utf8 "command must not be nil"⟩))
  | .of step owned ownDelay target, m =>
    match waitBefore host step owned ownDelay suppressed m with
    | (m, some fault) => (m, some fault)
    | (m, none) =>
      match Verb.ofName? step.verb with
      | some .again =>
        m.afterCheck (requirePresent target.present? (utf8 "repeat target"))
          (repeatUntilFault (fun m => step.attribute (execute true target m)) step.count.toNat m)
      | some verb => act host step owned m verb
      | none =>
        m.afterCheck (require .invariant false (utf8 "unhandled verb " ++ step.verb)) (m, none)

/-- Runs records in order up to the first fault. -/
def runAll : List Bare → Machine σ → Outcome σ
  | [], m => (m, none)
  | b :: rest, m =>
    match b.execute host false m with
    | (m, none) => runAll rest m
    | stopped => stopped

end Bare
end

/-- A script of bare records. -/
structure BareScript where
  path : Text
  delay : Int
  commands : List Bare
  loaded : Bool
  loading : Bool
  /-- What a load in progress has read so far, latest first. -/
  pending : List Bare

namespace BareScript

def recent (b : BareScript) : List Bare :=
  if b.loading then b.pending else b.commands.reverse

def parse (b : BareScript) (raw : Text) (line : Int) : Except ParseFault Bare :=
  Bare.parse raw line (some b.recent)

def readLines (b : BareScript) (n : Nat) : List Text → BareScript × Option LoadFault
  | [] => (b, none)
  | line :: rest =>
    if line.trim.isEmpty then readLines b (n + 1) rest
    else
      match b.parse line.trim n with
      | .ok c => readLines { b with pending := c :: b.pending } (n + 1) rest
      | .error fault => (b, some (.ofParse fault))

def tryLoadFrom (b : BareScript) (source : Source) : BareScript × Option LoadFault :=
  match readLines { b with loading := true, pending := [] } 0 source.lines with
  | (b, some fault) => ({ b with loading := false, pending := [] }, some fault)
  | (b, none) =>
    match source.fault with
    | some fault => ({ b with loading := false, pending := [] }, some fault)
    | none =>
      ({ b with commands := b.pending.reverse, loaded := true, loading := false, pending := [] },
        none)

def tryLoad (b : BareScript) (disk : Disk) : BareScript × Option LoadFault :=
  match Script.sourceAt disk b.path with
  | .ok source => b.tryLoadFrom source
  | .error fault => (b, some fault)

def setDelay (b : BareScript) (ms : Int) : Except Violation BareScript :=
  match checkedDelay ms with
  | .ok delay => .ok { b with delay := delay }
  | .error v => .error v

section

variable {σ : Type} (host : Host σ)

def runLoaded (b : BareScript) (state : σ) : (BareScript × σ) × Option Fault :=
  let (m, fault) := Bare.runAll host b.commands ⟨b.delay, state⟩
  (({ b with delay := m.delay }, m.host), fault)

def run (b : BareScript) (disk : Disk) (state : σ) : (BareScript × σ) × Option Fault :=
  if b.loaded then b.runLoaded host state
  else
    match b.tryLoad disk with
    | (loaded, none) => loaded.runLoaded host state
    | (loaded, some fault) => ((loaded, state), some (fault.fault b.path))

def execute (b : BareScript) (c : Bare) (state : σ) : (BareScript × σ) × Option Fault :=
  let (m, fault) := c.execute host false ⟨b.delay, state⟩
  (({ b with delay := m.delay }, m.host), fault)

end
end BareScript

/-- The record of a command. Only what stands for nothing before a repetition has no script. -/
def Command.bare : Command → Bare
  | .plain raw line deed =>
    .of (Step.ofCommand (.plain raw line deed)) (Command.plain raw line deed != .nothing) 0 .missing
  | .again raw line count target =>
    .of (Step.ofCommand (.again raw line count target)) true 0 target.bare

def Script.bare (s : Script) : BareScript where
  path := s.path
  delay := s.delay
  commands := s.commands.map Command.bare
  loaded := s.loaded
  loading := s.loading
  pending := s.pending.map Command.bare

theorem checkedCanonical_eq (word : Text) : checkedCanonical word = .ok (canonical word) := by
  cases found : aliases.lookup word <;>
    simp only [checkedCanonical, isAlias, resolveAlias, canonical, found] <;> rfl

theorem checkedCount_eq (argument : Text) :
    checkedCount argument = (readCount argument).map Int.ofNat := by
  simp only [checkedCount, readCount]
  cases argument.trim.readDecimal with
  | error fault => rfl
  | ok n =>
      simp only
      split
      · rfl
      · rename_i low
        split
        · rfl
        · have whole : Int.ofNat n.toNat = n := Int.toNat_of_nonneg (Int.not_lt.mp low)
          rw [Except.map, whole]

theorem line_bare (c : Command) : c.bare.line = c.line := by
  cases c <;> rfl

theorem previous_bare (recent : List Command) (line : Int) :
    Bare.previous (recent.map Command.bare) line =
      (previous recent line).map (Option.map Command.bare) := by
  have found : ((recent.map Command.bare).find? fun b => b.line < line) =
      (recent.find? fun c => c.line < line).map Command.bare := by
    rw [List.find?_map]
    simp only [Function.comp_def, line_bare]
  simp only [Bare.previous, previous, found]
  cases require .precondition (0 ≤ line)
    (utf8 "line must not be negative, got " ++ Text.ofInt line) <;> rfl

theorem bare_plain {raw : Text} (h : raw ≠ []) (line : Int) (deed : Deed) :
    (Command.plain raw line deed).bare =
      .of (Step.ofCommand (.plain raw line deed)) true 0 .missing := by
  have owned : (Command.plain raw line deed != .nothing) = true := by simp [Command.nothing, h]
  rw [Command.bare, owned]

/-- A line gives the record of the command that it gives. -/
theorem parse_bare (raw : Text) (line : Int) (recent : List Command) :
    Bare.parse raw line (some (recent.map Command.bare)) =
      (Command.parse raw line (some recent)).map Command.bare := by
  simp only [Bare.parse, Command.parse, Statement.read, checkedCanonical_eq, checkedCount_eq,
    previous_bare, Option.getD_some, Option.isSome_some, Option.isNone_some]
  by_cases blank : raw.trim.isEmpty = true
  · simp only [blank]
    rfl
  · have plain (deed : Deed) := bare_plain (by simpa using blank) line deed
    simp only [blank]
    by_cases known : isRecognized (raw.trim.cut 32).1 = true
    · simp only [known]
      cases keyword? (canonical (raw.trim.cut 32).1) with
      | none =>
          cases readKeys raw.trim.fields with
          | error bad => rfl
          | ok keys => exact (congrArg Except.ok (plain (.press keys))).symm
      | some keyword =>
          cases keyword with
          | rem => exact (congrArg Except.ok (plain (.comment _))).symm
          | string => exact (congrArg Except.ok (plain (.typeText _))).symm
          | delay =>
              cases readCount ((raw.trim.cut 32).2.getD []) with
              | error fault => rfl
              | ok ms => exact (congrArg Except.ok (plain (.delay ms))).symm
          | defaultDelay =>
              cases readCount ((raw.trim.cut 32).2.getD []) with
              | error fault => rfl
              | ok ms => exact (congrArg Except.ok (plain (.setDefaultDelay ms))).symm
          | again =>
              cases readCount ((raw.trim.cut 32).2.getD []) with
              | error fault => rfl
              | ok count =>
                  cases previous recent line with
                  | error v => rfl
                  | ok found =>
                      cases found with
                      | none => rfl
                      | some b =>
                          simp only [Except.map, Option.map_some, Option.getD_some, line_bare]
                          rfl
    · simp only [known]
      rfl

section

variable {σ : Type} (host : Host σ)

/-- The same host without a log. -/
def Host.muted : Host σ :=
  { host with note := fun _ state => state }

theorem Host.noteAll_muted (records : List Record) (state : σ) :
    host.muted.noteAll records state = state := by
  induction records with
  | nil => rfl
  | cons r rest ih => exact ih

theorem waitBefore_bare {c : Command} {owned : Bool} (h : owned = true ∨ c.skipsDelay = true)
    (ownDelay : Int) (suppressed : Bool) (m : Machine σ) :
    Bare.waitBefore host (Step.ofCommand c) owned ownDelay suppressed m =
      waitBefore host.muted c suppressed m := by
  have skips : (Step.ofCommand c).skipsDelay = c.skipsDelay := rfl
  simp only [Bare.waitBefore, waitBefore, skips]
  split
  · rfl
  · rename_i waits
    rcases h with rfl | h
    · rfl
    · simp [h] at waits

theorem afterCheck_keyboard (c : Command) (action : Action) (m : Machine σ) :
    m.afterCheck (requirePresent host.keyboard (utf8 "port"))
      ((Step.ofCommand c).act host action m) = performFor host.muted c action m := by
  have same : (Step.ofCommand c).act host action m = performFor host.muted c action m := rfl
  rw [same]
  cases keyboard : host.keyboard with
  | none =>
      simp only [performFor, Host.muted, keyboard]
      rfl
  | some perform => rfl

theorem act_bare (raw : Text) (line : Int) (deed : Deed) {owned : Bool}
    (h : owned = true ∨ deed.verb = .comment) (m : Machine σ) :
    Bare.act host (Step.ofCommand (.plain raw line deed)) owned m deed.verb =
      doDeed host.muted (.plain raw line deed) m deed := by
  cases deed with
  | comment text | delay ms => rfl
  | setDefaultDelay ms =>
      rcases h with rfl | h
      · rfl
      · cases h
  | typeText text => exact afterCheck_keyboard host _ (.type text) m
  | press keys => exact afterCheck_keyboard host _ (.hotkey keys) m

/-- A command has a script, or is a comment. -/
theorem owned_or_comment (raw : Text) (line : Int) (deed : Deed) :
    (Command.plain raw line deed != .nothing) = true ∨ deed.verb = .comment := by
  by_cases same : Command.plain raw line deed = .nothing
  · cases same
    exact .inr rfl
  · exact .inl (by simpa using same)

theorem present_bare (c : Command) : c.bare.present? = some c.bare := by
  cases c <;> rfl

/-- What a command fails with is attributed already. -/
theorem attribute_execute (step : Step) (c : Command) (suppressed : Bool) (m : Machine σ) :
    step.attribute (c.execute host suppressed m) = c.execute host suppressed m := by
  rcases run : c.execute host suppressed m with ⟨m', _ | fault⟩
  · rfl
  · cases execute_stops (congrArg Prod.snd run) with
    | failure c answers => simp only [Step.attribute, Step.attributed, any_attributed, ite_true]
    | keyboard missing => rfl

/-- A record does what its command does. -/
theorem execute_bare (c : Command) (suppressed : Bool) (m : Machine σ) :
    c.bare.execute host suppressed m = c.execute host.muted suppressed m := by
  induction c generalizing suppressed m with
  | plain raw line deed =>
      have owned := owned_or_comment raw line deed
      have skips : _ ∨ (Command.plain raw line deed).skipsDelay = true :=
        owned.imp_right fun comment => by simpa [Command.skipsDelay, Command.verb] using comment
      have verb : Verb.ofName? (Step.ofCommand (.plain raw line deed)).verb = some deed.verb :=
        deed.verb.ofName?_name
      simp only [Command.bare, Bare.execute, Command.execute, waitBefore_bare host skips, verb]
      rcases waitBefore host.muted _ suppressed m with ⟨m, _ | fault⟩
      · simp only [← act_bare host raw line deed owned]
        cases deed <;> rfl
      · rfl
  | again raw line count target ih =>
      have verb : Verb.ofName? (Step.ofCommand (.again raw line count target)).verb =
          some .again := Verb.again.ofName?_name
      have rounds : (Step.ofCommand (.again raw line count target)).count.toNat = count :=
        Int.toNat_natCast count
      simp only [Command.bare, Bare.execute, Command.execute, waitBefore_bare host (.inl rfl),
        verb, rounds, ih, attribute_execute, present_bare]
      rcases waitBefore host.muted _ suppressed m with ⟨m, _ | fault⟩ <;> rfl

/-- Records of no command fail the checks, and so does an action without a keyboard. -/
example :
    let host : Host Unit := ⟨fun _ s => (s, none), none, fun _ s => s⟩
    let fault (step : Step) (owned : Bool) :=
      ((Bare.of step owned 0 .missing).execute host true ⟨0, ()⟩).2
    fault { verb := Verb.again.name, count := 1 } true =
        some (.violation ⟨.precondition, utf8 "repeat target must not be nil"⟩) ∧
      fault { verb := Verb.setDefaultDelay.name } false =
        some (.violation ⟨.precondition, utf8 "script must not be nil"⟩) ∧
      fault { verb := Verb.press.name } true =
        some (.violation ⟨.precondition, utf8 "port must not be nil"⟩) ∧
      fault { verb := utf8 "verb(6)" } true =
        some (.violation ⟨.invariant, utf8 "unhandled verb verb(6)"⟩) := by
  decide

theorem runAll_bare (path : Text) (cs : List Command) (m : Machine σ) :
    Bare.runAll host (cs.map Command.bare) m = runAll host.muted path cs m := by
  induction cs generalizing m with
  | nil => rfl
  | cons c rest ih =>
      simp only [List.map_cons, Bare.runAll, runAll, execute_bare]
      have muted : m.note host.muted c.turnRecord = m := rfl
      rw [muted]
      rcases c.execute host.muted false m with ⟨m', _ | ⟨f⟩ | ⟨v⟩⟩
      · exact ih m'
      · rfl
      · rfl

end

namespace Script

theorem recent_bare (s : Script) : s.bare.recent = s.recent.map Command.bare := by
  cases loading : s.loading <;> simp [BareScript.recent, recent, bare, loading]

theorem parse_bare (s : Script) (raw : Text) (line : Int) :
    s.bare.parse raw line = (s.parse raw line).map Command.bare := by
  rw [BareScript.parse, recent_bare, KeyScript.parse_bare]
  rfl

theorem readLines_bare (s : Script) (n : Nat) (lines : List Text) :
    s.bare.readLines n lines = (s.readLines n lines).map bare id := by
  induction lines generalizing s n with
  | nil => rfl
  | cons line rest ih =>
      simp only [BareScript.readLines, readLines, parse_bare]
      split
      · exact ih s (n + 1)
      · cases s.parse line.trim n with
        | ok c => exact ih { s with pending := c :: s.pending } (n + 1)
        | error fault => rfl

/-- A load of records takes over those of the commands that are loaded. -/
theorem tryLoadFrom_bare (s : Script) (source : Source) :
    s.bare.tryLoadFrom source = (s.tryLoadFrom source).map bare id := by
  have lines := readLines_bare s.beginLoad 0 source.lines
  have start : s.beginLoad.bare = { s.bare with loading := true, pending := [] } := rfl
  rw [start] at lines
  simp only [BareScript.tryLoadFrom, tryLoadFrom, lines]
  rcases s.beginLoad.readLines 0 source.lines with ⟨read, _ | fault⟩
  · cases source.fault with
    | none =>
        simp only [Prod.map, bare, commit, endLoad, List.map_reverse]
        rfl
    | some fault => rfl
  · rfl

theorem tryLoad_bare (s : Script) (disk : Disk) :
    s.bare.tryLoad disk = (s.tryLoad disk).map bare id := by
  have path : s.bare.path = s.path := rfl
  simp only [BareScript.tryLoad, tryLoad, path]
  cases sourceAt disk s.path with
  | ok source => exact tryLoadFrom_bare s source
  | error fault => rfl

theorem setDelay_bare (s : Script) (ms : Int) :
    s.bare.setDelay ms = (s.setDelay ms).map bare := by
  simp only [BareScript.setDelay, setDelay, checkedDelay]
  cases requireNonNegative ms (utf8 "default delay") <;> rfl

section

variable {σ : Type} (host : Host σ)

theorem execute_bare (s : Script) (c : Command) (state : σ) :
    s.bare.execute host c.bare state =
      (s.execute host.muted c state).map (Prod.map bare id) id := by
  simp only [BareScript.execute, execute, KeyScript.execute_bare]
  rfl

theorem runLoaded_bare (s : Script) (state : σ) :
    s.bare.runLoaded host state = (s.runLoaded host.muted state).map (Prod.map bare id) id := by
  have commands : s.bare.commands = s.commands.map Command.bare := rfl
  have delay : s.bare.delay = s.delay := rfl
  have muted : Machine.note host.muted ⟨s.delay, state⟩ s.startRecord = ⟨s.delay, state⟩ := rfl
  simp only [BareScript.runLoaded, runLoaded, commands, delay, runAll_bare host s.path, muted]
  rcases runAll host.muted s.path s.commands ⟨s.delay, state⟩ with ⟨m, _ | fault⟩ <;> rfl

/-- A run of records is the run of the script without a log. -/
theorem run_bare (s : Script) (disk : Disk) (state : σ) :
    s.bare.run host disk state = (s.run host.muted disk state).map (Prod.map bare id) id := by
  have loaded : s.bare.loaded = s.loaded := rfl
  have path : s.bare.path = s.path := rfl
  have quiet (record : Record) : host.muted.note record state = state := rfl
  simp only [BareScript.run, run, loaded, path, tryLoad_bare, loadNoting,
    Host.noteAll_muted, quiet]
  split
  · exact runLoaded_bare host s state
  · rcases s.tryLoad disk with ⟨t, _ | fault⟩
    · exact runLoaded_bare host t state
    · rfl

end
end Script

end KeyScript
