import KeyScript.Plan.Listing
import KeyScript.Proofs.Interruption
import KeyScript.Proofs.LoadedPlan

/-!
Running a plan. The steps of a plan are flat: a repetition names what it
repeats by its line only, and the default delay is all that steps share. A plan
is run from its steps alone, without the commands they came from, and does what
the script does that it is the plan of. Scripts with the same binary form
therefore behave alike.
-/

namespace KeyScript

section

variable {σ : Type} (host : Host σ)

namespace Step

/-- The failure of a step. A failure that is attributed already passes unchanged. -/
def attributed (s : Step) (f : Failure) : Failure :=
  if f.any Layer.isExecution then f else .execution s.line s.raw :: f

def wait (s : Step) (ms : Int) (m : Machine σ) : Outcome σ :=
  match host.sleep (nanosOfMillis ms) m.host with
  | (state, none) => ({ m with host := state }, none)
  | (state, some f) => ({ m with host := state }, some (.failure (s.attributed f)))

def act (s : Step) (action : Action) (m : Machine σ) : Outcome σ :=
  match host.keyboard with
  | none => (m, some (.violation missingKeyboard))
  | some perform =>
    match perform action m.host with
    | (state, none) => ({ m with host := state }, none)
    | (state, some f) => ({ m with host := state }, some (.failure (s.attributed f)))

/-- What a step that is no repetition does behind its wait. -/
def own (s : Step) (m : Machine σ) : Option (Outcome σ) :=
  match Verb.ofName? s.verb with
  | some .comment => some (m, none)
  | some .delay => some (s.wait host s.millis m)
  | some .setDefaultDelay => some ({ m with delay := s.millis }, none)
  | some .typeText => some (s.act host (.type s.text) m)
  | some .press => some (s.act host (.hotkey s.keys) m)
  | some .again | none => none

/-- Goes on with `next`, unless there was a fault. -/
def onward (next : Machine σ → Option (Outcome σ)) : Option (Outcome σ) → Option (Outcome σ)
  | some (m, none) => next m
  | early => early

def rounds (once : Machine σ → Option (Outcome σ)) : Nat → Machine σ → Option (Outcome σ)
  | 0, m => some (m, none)
  | n + 1, m => onward (rounds once n) (once m)

/-- What a step does behind its wait. A repetition does what the step with the line of its target
does. There is no result for a kind that is not known, for a line that no step has, and for
repetitions that are nested deeper than `depth`. -/
def body (steps : List Step) : Nat → Step → Machine σ → Option (Outcome σ)
  | 0, s, m => s.own host m
  | depth + 1, s, m =>
    if Verb.ofName? s.verb = some .again then
      if s.target = noLine then some (m, none)
      else
        match steps.find? fun t => t.line == s.target with
        | some t => rounds (body steps depth t) s.count.toNat m
        | none => none
    else s.own host m

/-- Runs a step among others; nesting that does not end takes more steps than there are. -/
def perform (steps : List Step) (s : Step) (m : Machine σ) : Option (Outcome σ) :=
  onward (s.body host steps steps.length)
    (some (if s.skipsDelay then (m, none) else s.wait host m.delay m))

def performEach (steps : List Step) : List Step → Machine σ → Option (Outcome σ)
  | [], m => some (m, none)
  | s :: rest, m => onward (performEach steps rest) (s.perform host steps m)

end Step

def Plan.run (p : Plan) (m : Machine σ) : Option (Outcome σ) :=
  Step.performEach host p.steps p.steps m

end

theorem Verb.ofName?_name (v : Verb) : Verb.ofName? v.name = some v := by
  cases v <;> decide

theorem Deed.verb_ne_again (deed : Deed) : deed.verb ≠ .again := by
  cases deed <;> simp [Deed.verb]

/-- A line is found where it stands: no two commands have the same. -/
theorem find?_line {cs : List Command} (increasing : cs.Pairwise fun a b => a.line < b.line)
    {c : Command} (hc : c ∈ cs) :
    ((cs.map Step.ofCommand).find? fun t => t.line == c.line) = some (Step.ofCommand c) := by
  induction increasing with
  | nil => cases hc
  | @cons first rest later _ ih =>
      rcases List.mem_cons.mp hc with rfl | hc
      · simp [Step.ofCommand]
      · have apart : first.line ≠ c.line := Int.ne_of_lt (later c hc)
        rw [List.map_cons, List.find?_cons_of_neg (by simpa [Step.ofCommand] using apart)]
        exact ih hc

section

variable {σ : Type} {host : Host σ}

theorem rounds_eq_some {once : Machine σ → Option (Outcome σ)} {step : Machine σ → Outcome σ}
    (h : ∀ m, once m = some (step m)) (n : Nat) (m : Machine σ) :
    Step.rounds once n m = some (repeatUntilFault step n m) := by
  induction n generalizing m with
  | zero => rfl
  | succ n ih =>
      simp only [Step.rounds, repeatUntilFault, h]
      rcases step m with ⟨m, _ | fault⟩
      · exact ih m
      · rfl

theorem own_ofCommand (raw : Text) (line : Int) (deed : Deed) (m : Machine σ) :
    (Step.ofCommand (.plain raw line deed)).own host m =
      some (performAll host (Command.plain raw line deed).bodyMoves m) := by
  rw [Command.bodyMoves, ← doDeed_eq_performAll]
  have verb : (Step.ofCommand (.plain raw line deed)).verb = deed.verb.name := rfl
  simp only [Step.own, verb, Verb.ofName?_name]
  cases deed with
  | setDefaultDelay ms => rw [doDeed, checkedDelay_natCast]; rfl
  | comment text | delay ms | typeText text | press keys => rfl

/-- A host whose log is not looked at. -/
def Host.Unlogged (host : Host σ) : Prop :=
  ∀ record state, host.note record state = state

theorem Host.Unlogged.note (h : host.Unlogged) (m : Machine σ) (r : Record) :
    m.note host r = m := by
  rw [Machine.note, h]

theorem Host.Unlogged.performAll_note (h : host.Unlogged) (r : Record) (xs : List Move)
    (m : Machine σ) : performAll host (.note r :: xs) m = performAll host xs m := by
  rw [performAll, Move.perform, h.note]

theorem Host.Unlogged.performAll_nothing (h : host.Unlogged) (n : Nat) (r : Record)
    (m : Machine σ) : performAll host (List.replicate n [.note r]).flatten m = (m, none) := by
  induction n with
  | zero => rfl
  | succ n ih => rw [List.replicate_succ, List.flatten_cons, List.singleton_append,
      h.performAll_note, ih]

/-- Behind its wait a step does what the command does, however deep that is nested: the command
at `i` has only the `i` commands in front of it to refer to. -/
theorem body_ofCommand (h : host.Unlogged) {cs : List Command} (linked : Linked cs.reverse)
    {i : Nat} {c : Command} (hc : cs[i]? = some c) {depth : Nat} (deep : i ≤ depth)
    (m : Machine σ) :
    (Step.ofCommand c).body host (cs.map Step.ofCommand) (depth + 1) m =
      some (performAll host c.bodyMoves m) := by
  induction c generalizing i depth m with
  | plain raw line deed =>
      have verb : Verb.ofName? (Step.ofCommand (.plain raw line deed)).verb = some deed.verb :=
        deed.verb.ofName?_name
      rw [Step.body, verb, if_neg (by simpa using deed.verb_ne_again), own_ofCommand]
  | again raw line count target ih =>
      have verb : Verb.ofName? (Step.ofCommand (.again raw line count target)).verb =
          some .again := Verb.again.ofName?_name
      rw [Step.body, if_pos verb]
      cases i with
      | zero =>
          obtain rfl : target = .nothing := linked.target_zero hc rfl
          exact congrArg some (h.performAll_nothing count Command.nothing.startRecord m).symm
      | succ i =>
          have ht : cs[i]? = some target := linked.target_succ hc rfl
          have member : target ∈ cs := List.mem_of_getElem? ht
          have place : (Step.ofCommand (.again raw line count target)).target = target.line := rfl
          have line_ne : target.line ≠ noLine := by
            have := linked.nonneg target (List.mem_reverse.mpr member)
            simp only [noLine]
            omega
          obtain ⟨depth, rfl⟩ : ∃ n, depth = n + 1 := ⟨depth - 1, by omega⟩
          have once (m : Machine σ) :
              (Step.ofCommand target).body host (cs.map Step.ofCommand) (depth + 1) m =
                some (performAll host (.note target.startRecord :: target.bodyMoves) m) := by
            rw [h.performAll_note]
            exact ih ht (by omega) m
          rw [place, if_neg line_ne, find?_line (List.pairwise_reverse.mp linked.decreasing) member]
          simp only [rounds_eq_some once, Command.bodyMoves]
          rw [repeatUntilFault_eq_performAll host _ _ (fun _ => rfl)]
          rfl

theorem perform_ofCommand (h : host.Unlogged) {cs : List Command} (linked : Linked cs.reverse)
    {c : Command} (hc : c ∈ cs) (m : Machine σ) :
    (Step.ofCommand c).perform host (cs.map Step.ofCommand) m =
      some (performAll host (c.moves false m.delay) m) := by
  obtain ⟨i, hi⟩ := List.getElem?_of_mem hc
  have short : i < cs.length := (List.getElem?_eq_some_iff.mp hi).1
  obtain ⟨depth, deep⟩ : ∃ n, cs.length = n + 1 := ⟨cs.length - 1, by omega⟩
  have front : (if (Step.ofCommand c).skipsDelay then (m, none)
      else (Step.ofCommand c).wait host m.delay m) =
        performAll host (c.frontMoves false m.delay) m := by
    rw [← waitBefore_eq_performAll, waitBefore, h.note, h.note]
    rfl
  rw [Step.perform, front, List.length_map, deep, Command.moves, performAll_append]
  rcases performAll host (c.frontMoves false m.delay) m with ⟨mid, _ | fault⟩
  · exact body_ofCommand h linked hi (by omega) mid
  · rfl

theorem performEach_ofCommands (h : host.Unlogged) {cs : List Command}
    (linked : Linked cs.reverse) {rest : List Command} (part : ∀ c ∈ rest, c ∈ cs)
    (m : Machine σ) :
    Step.performEach host (cs.map Step.ofCommand) (rest.map Step.ofCommand) m =
      some (performAll host (runMoves m.delay rest) m) := by
  induction rest generalizing m with
  | nil => rfl
  | cons c rest ih =>
      rw [List.map_cons, Step.performEach, perform_ofCommand h linked (part c List.mem_cons_self),
        performAll_runMoves_cons, h.note]
      rcases performAll host (c.moves false m.delay) m with ⟨mid, _ | fault⟩
      · exact ih (fun b hb => part b (List.mem_cons_of_mem _ hb)) mid
      · rfl

theorem Plan.run_ofCommands (h : host.Unlogged) {cs : List Command} (linked : Linked cs.reverse)
    (name : Text) (m : Machine σ) :
    (Plan.ofCommands name cs).run host m = some (performAll host (runMoves m.delay cs) m) :=
  performEach_ofCommands h linked (fun _ hc => hc) m

end

/-- What can be seen of a run: what it did, why it stopped early, if it did, with the line at fault
and the cause, and the default delay it left. -/
structure Behaviour where
  events : List Event
  fault : Option Fault
  delay : Int
deriving DecidableEq, Repr

section

variable {μ : Type}

def Behaviour.ofOutcome (out : Outcome (Rehearsal μ)) : Behaviour :=
  ⟨out.1.host.events.toList, out.2, out.1.delay⟩

variable (guard : Guard μ)

def Script.behaviour (noted : Bool) (disk : Disk) (r : Rehearsal μ) (s : Script) : Behaviour :=
  let out := s.run (Rehearsal.host guard .recorded true noted) disk r
  ⟨out.1.2.events.toList, out.2, out.1.1.delay⟩

/-- How a plan behaves when it is rehearsed from the default delay `d` on. -/
def Plan.behaviour (d : Int) (r : Rehearsal μ) (p : Plan) : Option Behaviour :=
  (p.run (Rehearsal.host guard .recorded true false) ⟨d, r⟩).map .ofOutcome

variable {guard}

def Rehearsal.unlogged (r : Rehearsal μ) : Rehearsal μ :=
  { r with journal := {} }

def Machine.unlogged (m : Machine (Rehearsal μ)) : Machine (Rehearsal μ) :=
  { m with host := m.host.unlogged }

variable (guard) in
theorem Rehearsal.unlogged_host :
    (Rehearsal.host guard .recorded true false).Unlogged :=
  fun _ _ => rfl

/-- A rehearsal does the same whether it keeps its log or not. -/
theorem Rehearsal.perform_unlogged (noted : Bool) (x : Move) (m : Machine (Rehearsal μ)) :
    (x.perform (Rehearsal.host guard .recorded true noted) m).map Machine.unlogged id =
      x.perform (Rehearsal.host guard .recorded true false) m.unlogged := by
  cases x with
  | note r => cases noted <;> rfl
  | setDelay ms => rfl
  | wait c ms =>
      rw [Rehearsal.perform_wait, Rehearsal.perform_wait]
      rfl
  | act c action =>
      have same : Rehearsal.perform guard action m.host.unlogged =
          (Rehearsal.perform guard action m.host).map Rehearsal.unlogged id := by
        simp only [Rehearsal.perform, Rehearsal.unlogged]
        rcases m.host.recorder.record guard m.host.countdown.isOver action with ⟨_, _ | _⟩ <;> rfl
      simp only [Move.perform, performFor, Rehearsal.host, Machine.unlogged, same]
      rcases Rehearsal.perform guard action m.host with ⟨r, _ | refusal⟩ <;> rfl

theorem Rehearsal.performAll_unlogged (noted : Bool) (xs : List Move)
    (m : Machine (Rehearsal μ)) :
    (performAll (Rehearsal.host guard .recorded true noted) xs m).map Machine.unlogged id =
      performAll (Rehearsal.host guard .recorded true false) xs m.unlogged := by
  induction xs generalizing m with
  | nil => rfl
  | cons x xs ih =>
      rw [performAll, performAll, ← Rehearsal.perform_unlogged noted]
      rcases x.perform (Rehearsal.host guard .recorded true noted) m with ⟨mid, _ | fault⟩
      · exact ih mid
      · rfl

theorem Behaviour.ofOutcome_performAll (noted : Bool) (xs : List Move)
    (m : Machine (Rehearsal μ)) :
    ofOutcome (performAll (Rehearsal.host guard .recorded true noted) xs m) =
      ofOutcome (performAll (Rehearsal.host guard .recorded true false) xs m) := by
  have blind (out : Outcome (Rehearsal μ)) :
      ofOutcome (out.map Machine.unlogged id) = ofOutcome out := rfl
  rw [← blind, Rehearsal.performAll_unlogged, ← Rehearsal.performAll_unlogged false, blind]

theorem Script.behaviour_eq (noted : Bool) (disk : Disk) (r : Rehearsal μ) {s : Script}
    (loaded : s.loaded = true) :
    s.behaviour guard noted disk r =
      .ofOutcome (performAll (Rehearsal.host guard .recorded true false)
        (runMoves s.delay s.commands) ⟨s.delay, r⟩) := by
  obtain ⟨records, run⟩ :=
    s.runLoaded_eq_performAll (Rehearsal.host guard .recorded true noted) r
  have silent := silent_noteAll (Rehearsal.host guard .recorded true noted) records
    (performAll (Rehearsal.host guard .recorded true noted) s.moves ⟨s.delay, r⟩).1.host
    (List Event) (fun r => r.events.toList) (fun record r => by cases noted <;> rfl)
  have moves : performAll (Rehearsal.host guard .recorded true false) s.moves ⟨s.delay, r⟩ =
      performAll (Rehearsal.host guard .recorded true false) (runMoves s.delay s.commands)
        ⟨s.delay, r⟩ :=
    (Rehearsal.unlogged_host guard).performAll_note s.startRecord _ _
  rw [← moves, ← Behaviour.ofOutcome_performAll noted, Script.behaviour,
    Script.run_of_loaded _ loaded, run]
  simp only [silent, Behaviour.ofOutcome]

variable (guard) in
/-- A loaded script behaves as its plan does, run from the steps alone. -/
theorem Plan.behaviour_loaded (noted : Bool) (disk : Disk) (r : Rehearsal μ) (d : Int)
    {s loaded : Script} {source : Source} (accepted : s.loadFrom source = .ok loaded)
    (name : Text) :
    (Plan.ofCommands name loaded.commands).behaviour guard d r =
      some (({ loaded with delay := d } : Script).behaviour guard noted disk r) := by
  obtain ⟨cs, commands, rfl⟩ := Script.loadFrom_eq_ok_iff.mp accepted
  have run := Plan.run_ofCommands (Rehearsal.unlogged_host guard)
    (linked_commands commands) name ⟨d, r⟩
  rw [Plan.behaviour, run, Script.behaviour_eq noted disk r rfl]
  rfl

theorem Plan.steps_eq_of_loaded {s s' loaded loaded' : Script} {source source' : Source}
    (accepted : s.loadFrom source = .ok loaded) (accepted' : s'.loadFrom source' = .ok loaded')
    (short : IsInt64 source.text.length) (short' : IsInt64 source'.text.length)
    {name name' : Text}
    (same : (Plan.ofCommands name loaded.commands).encode =
      (Plan.ofCommands name' loaded'.commands).encode) :
    (Plan.ofCommands name loaded.commands).steps =
      (Plan.ofCommands name' loaded'.commands).steps := by
  obtain ⟨cs, commands, rfl⟩ := Script.loadFrom_eq_ok_iff.mp accepted
  obtain ⟨cs', commands', rfl⟩ := Script.loadFrom_eq_ok_iff.mp accepted'
  exact Plan.steps_eq_of_encode_eq (sized_ofCommands commands short name)
    (sized_ofCommands commands' short' name') same

variable (guard) in
/-- The plan of a loaded script says all about its runs, whatever the guard refuses, whenever the
run is called off and whatever the default delay is at the start: run from its steps alone it has
a result, and this is that of the script. Two scripts whose plans have the same binary form
therefore behave alike. -/
theorem plan_determines_run (noted : Bool) (disk : Disk) (r : Rehearsal μ) (d : Int)
    {s loaded : Script} {source : Source} (accepted : s.loadFrom source = .ok loaded)
    (name : Text) :
    (Plan.ofCommands name loaded.commands).behaviour guard d r =
        some (({ loaded with delay := d } : Script).behaviour guard noted disk r) ∧
      ∀ (s' loaded' : Script) (source' : Source) (name' : Text),
        s'.loadFrom source' = .ok loaded' →
        IsInt64 source.text.length → IsInt64 source'.text.length →
        (Plan.ofCommands name loaded.commands).encode =
          (Plan.ofCommands name' loaded'.commands).encode →
        ({ loaded with delay := d } : Script).behaviour guard noted disk r =
          ({ loaded' with delay := d } : Script).behaviour guard noted disk r := by
  have determined := Plan.behaviour_loaded guard noted disk r d accepted name
  refine ⟨determined, fun s' loaded' source' name' accepted' short short' same => ?_⟩
  have steps := Plan.steps_eq_of_loaded accepted accepted' short short' same
  apply Option.some.inj
  rw [← determined, ← Plan.behaviour_loaded guard noted disk r d accepted' name']
  simp only [Plan.behaviour, Plan.run, steps]

/-- A guard that refuses the third action stops a chain of repetitions, and names the line that
was repeated. The same steps spelled with other white space behave alike. -/
theorem plan_determines_run_refused :
    let guard : Guard Nat := fun n _ => (n + 1, if n < 2 then none else some [.failSafe])
    let r : Rehearsal Nat := { recorder := ⟨0, #[]⟩ }
    let first : Source := ⟨utf8 "REPEAT 7\nDEFAULT_DELAY 5\nSTRING a\nREPEAT 1\nREPEAT 3", none⟩
    let second : Source :=
      ⟨utf8 "REPEAT 7 \n\tDEFAULT_DELAY 5\x0d\n STRING a\nREPEAT 1\nREPEAT 3\n\n", none⟩
    let s : Script := { path := utf8 "a" }
    let loaded := (s.tryLoadFrom first).1
    let loaded' := (s.tryLoadFrom second).1
    let disk : Disk := fun _ => .ok .directory
    let a := Event.act (.type (utf8 "a"))
    let seen : Behaviour :=
      ⟨[.wait 2, .wait 2, .wait 5, a, .wait 5, a, .wait 5],
        some (.failure [.execution 2 (utf8 "STRING a"), .failSafe]), 5⟩
    first.text ≠ second.text ∧
      (Plan.ofCommands [] loaded.commands).behaviour guard 2 r = some seen ∧
      ({ loaded' with delay := 2 } : Script).behaviour guard true disk r = seen := by
  intro guard r first second s loaded loaded' disk a seen
  have computed : (s.tryLoadFrom first).2 = none ∧ (s.tryLoadFrom second).2 = none ∧
      (Plan.ofCommands [] loaded.commands).encode = (Plan.ofCommands [] loaded'.commands).encode ∧
      (Plan.ofCommands [] loaded.commands).behaviour guard 2 r = some seen := by
    decide +kernel
  obtain ⟨ok, ok', encoded, result⟩ := computed
  obtain ⟨determined, alike⟩ :=
    plan_determines_run guard true disk r 2 (Script.loadFrom_of_none ok) []
  have same := alike s loaded' second [] (Script.loadFrom_of_none ok') (by decide +kernel)
    (by decide +kernel) encoded
  rw [result] at determined
  exact ⟨by decide +kernel, result, same.symm.trans (Option.some.inj determined).symm⟩

end

end KeyScript
