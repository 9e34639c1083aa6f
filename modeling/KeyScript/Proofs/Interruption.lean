import KeyScript.Proofs.Expansion
import KeyScript.Proofs.Reachable

/-!
What is left of a run that is cut short. A guard may refuse an action, with a
memory of what it was asked before, and a run may be called off before it
starts or by one of its waits. Either way the events are those of the run that
nothing stops, up to one point and no further, and the default delay is the one
that the commands before the failing one left.
-/

namespace KeyScript

section

variable {μ : Type} (guard : Guard μ)

/-- The position of the first action that a guard refuses when it is asked about the actions of
a trace in order. -/
def firstRefusal : μ → List Event → Option Nat
  | _, [] => none
  | memory, .sleep _ :: rest => (firstRefusal memory rest).map (· + 1)
  | memory, .act action :: rest =>
    match guard memory action with
    | (_, some _) => some 0
    | (memory, none) => (firstRefusal memory rest).map (· + 1)

/-- The number of events up to the end of the `n`-th wait of a trace. A run that is called off
before it starts notices that at its first wait. -/
def throughWait : Nat → List Event → Option Nat
  | _, [] => none
  | n, .act _ :: rest => (throughWait n rest).map (· + 1)
  | n, .sleep _ :: rest => if n ≤ 1 then some 1 else (throughWait (n - 1) rest).map (· + 1)

/-- Where a trace is cut, by the guard or by being called off, whichever comes first. -/
def cutAt (memory : μ) (countdown : Countdown) (trace : List Event) : Option Nat :=
  Option.merge min (firstRefusal guard memory trace) (countdown.bind (throughWait · trace))

/-- Where a rehearsal stops in a trace, event by event. -/
def stopAt : μ → Countdown → List Event → Option Nat
  | _, _, [] => none
  | memory, countdown, .sleep _ :: rest =>
    if countdown.tick.isOver then some 1 else (stopAt memory countdown.tick rest).map (· + 1)
  | memory, countdown, .act action :: rest =>
    if countdown.isOver then some 0
    else
      match guard memory action with
      | (_, some _) => some 0
      | (memory, none) => (stopAt memory countdown rest).map (· + 1)

theorem map_merge_min (a b : Option Nat) :
    (Option.merge min a b).map (· + 1) =
      Option.merge min (a.map (· + 1)) (b.map (· + 1)) := by
  cases a <;> cases b <;> simp [Option.merge, Nat.succ_min_succ]

variable {guard}

theorem cutAt_sleep_over {countdown : Countdown} (ended : countdown.tick.isOver = true)
    (memory : μ) (length : Nanos) (rest : List Event) :
    cutAt guard memory countdown (.sleep length :: rest) = some 1 := by
  match countdown with
  | none => cases ended
  | some (n + 2) => cases ended
  | some 0 | some 1 =>
      cases h : firstRefusal guard memory rest <;>
        simp [cutAt, firstRefusal, throughWait, h, Option.merge]

theorem cutAt_sleep {countdown : Countdown} (running : countdown.tick.isOver = false)
    (memory : μ) (length : Nanos) (rest : List Event) :
    cutAt guard memory countdown (.sleep length :: rest) =
      (cutAt guard memory countdown.tick rest).map (· + 1) := by
  rw [cutAt, cutAt, map_merge_min]
  match countdown with
  | none => rfl
  | some 0 | some 1 => cases running
  | some (n + 2) => simp [firstRefusal, throughWait, Countdown.tick]

theorem cutAt_act_refused {memory memory' : μ} {action : Action} {refusal : Failure}
    (refused : guard memory action = (memory', some refusal)) (countdown : Countdown)
    (rest : List Event) : cutAt guard memory countdown (.act action :: rest) = some 0 := by
  simp only [cutAt, firstRefusal, refused]
  cases countdown.bind (throughWait · (.act action :: rest)) <;> simp [Option.merge]

theorem cutAt_act {memory memory' : μ} {action : Action}
    (passed : guard memory action = (memory', none)) (countdown : Countdown)
    (rest : List Event) :
    cutAt guard memory countdown (.act action :: rest) =
      (cutAt guard memory' countdown rest).map (· + 1) := by
  rw [cutAt, cutAt, map_merge_min]
  cases countdown <;> simp [firstRefusal, throughWait, passed]

/-- A rehearsal stops where its trace is cut, provided that it does not start with an action
when it has been called off already. -/
theorem stopAt_eq_cutAt {countdown : Countdown} {trace : List Event}
    (h : countdown.isOver = false ∨ ∀ action, trace.head? ≠ some (.act action)) (memory : μ) :
    stopAt guard memory countdown trace = cutAt guard memory countdown trace := by
  induction trace generalizing memory countdown with
  | nil => cases countdown <;> rfl
  | cons event rest ih =>
      cases event with
      | sleep length =>
          cases ended : countdown.tick.isOver with
          | true => simp only [stopAt, ended, ite_true, cutAt_sleep_over ended]
          | false =>
              simp only [stopAt, ended, Bool.false_eq_true, ite_false, cutAt_sleep ended,
                ih (.inl ended) memory]
      | act action =>
          -- An action behind a wait finds the run going on, or the wait would have ended it; only
          -- one in front of all waits has to be ruled out by hand.
          have running : countdown.isOver = false := h.resolve_right (fun no => no action rfl)
          simp only [stopAt, running, Bool.false_eq_true, ite_false]
          rcases asked : guard memory action with ⟨memory', _ | refusal⟩
          · simp only [cutAt_act asked, ih (.inl running) memory']
          · simp only [cutAt_act_refused asked]

/-- One more event in front moves the cut back by one. -/
theorem take_cut_cons (event : Event) (rest : List Event) (cut : Option Nat) :
    (event :: rest).take ((cut.map (· + 1)).getD (event :: rest).length) =
      event :: rest.take (cut.getD rest.length) := by
  cases cut <;> rfl

/-- A wait becomes an event even when it calls the run off. -/
theorem Rehearsal.perform_wait (noted : Bool) (c : Command) (ms : Int)
    (m : Machine (Rehearsal μ)) :
    (Move.wait c ms).perform (Rehearsal.host guard .recorded true noted) m =
      ({ m with host := { m.host with
          events := m.host.events.push (.sleep (nanosOfMillis ms))
          countdown := m.host.countdown.tick } },
        if m.host.countdown.tick.isOver then some (.failure (attributed c [.canceled]))
        else none) := by
  cases ended : m.host.countdown.tick.isOver <;>
    simp [Move.perform, waitFor, Rehearsal.host, Rehearsal.sleep, Countdown.failure, ended]

theorem Rehearsal.perform_act_passed {m : Machine (Rehearsal μ)} {action : Action} {memory : μ}
    (running : m.host.countdown.isOver = false)
    (passed : guard m.host.recorder.memory action = (memory, none)) (noted : Bool) (c : Command) :
    (Move.act c action).perform (Rehearsal.host guard .recorded true noted) m =
      ({ m with host := { m.host with
          recorder := ⟨memory, m.host.recorder.actions.push action⟩
          events := m.host.events.push (.act action) } }, none) := by
  simp [Move.perform, performFor, Rehearsal.host, Rehearsal.perform, Recorder.record, running,
    passed]

/-- An action that is refused, by the guard or because the run is over, is no event. -/
theorem Rehearsal.perform_act_refused (noted : Bool) (c : Command) {action : Action}
    {m : Machine (Rehearsal μ)}
    (refused : m.host.countdown.isOver = true ∨ (guard m.host.recorder.memory action).2 ≠ none) :
    ∃ m' fault, (Move.act c action).perform (Rehearsal.host guard .recorded true noted) m =
        (m', some fault) ∧
      m'.host.events = m.host.events := by
  simp only [Move.perform, performFor, Rehearsal.host, Rehearsal.perform, Recorder.record]
  cases ended : m.host.countdown.isOver with
  | true => exact ⟨_, _, rfl, rfl⟩
  | false =>
      rcases asked : guard m.host.recorder.memory action with ⟨memory, _ | refusal⟩
      · rcases refused with ended' | no
        · rw [ended] at ended'
          cases ended'
        · exact absurd (congrArg Prod.snd asked) no
      · exact ⟨_, _, rfl, rfl⟩

variable (guard) in
/-- Making moves in a rehearsal makes their events, up to where it stops. -/
theorem Rehearsal.performAll_events (noted : Bool) (xs : List Move) (m : Machine (Rehearsal μ)) :
    let host := Rehearsal.host guard .recorded true noted
    let stop := stopAt guard m.host.recorder.memory m.host.countdown (eventsOf xs)
    (performAll host xs m).1.host.events.toList =
        m.host.events.toList ++ (eventsOf xs).take (stop.getD (eventsOf xs).length) ∧
      ((performAll host xs m).2 = none ↔ stop = none) := by
  intro host
  -- The machine carries the memory and the countdown from which `stopAt` goes on.
  induction xs generalizing m with
  | nil => exact ⟨(List.append_nil _).symm, iff_of_true rfl rfl⟩
  | cons x xs ih =>
      cases x with
      | note r =>
          cases noted with
          | true => exact ih (m.note host r)
          | false => exact ih m
      | setDelay ms => exact ih { m with delay := ms }
      | wait c ms =>
          have events : eventsOf (.wait c ms :: xs) =
              .sleep (nanosOfMillis ms) :: eventsOf xs := rfl
          simp only [events, stopAt, performAll, host, Rehearsal.perform_wait]
          cases ended : m.host.countdown.tick.isOver with
          | true => simp
          | false =>
              simp only [Bool.false_eq_true, ite_false, take_cut_cons, Option.map_eq_none_iff]
              obtain ⟨made, whole⟩ := ih { m with host := { m.host with
                events := m.host.events.push (.sleep (nanosOfMillis ms))
                countdown := m.host.countdown.tick } }
              refine ⟨made.trans ?_, whole⟩
              simp
      | act c action =>
          have events : eventsOf (.act c action :: xs) = .act action :: eventsOf xs := rfl
          simp only [events, stopAt, performAll]
          cases ended : m.host.countdown.isOver with
          | true =>
              have refused : _ ∨ (guard m.host.recorder.memory action).2 ≠ none := .inl ended
              obtain ⟨m', fault, stopped, same⟩ := Rehearsal.perform_act_refused noted c refused
              simp [host, stopped, same]
          | false =>
              rcases asked : guard m.host.recorder.memory action with ⟨memory, _ | refusal⟩
              · simp only [Bool.false_eq_true, ite_false, take_cut_cons, Option.map_eq_none_iff,
                  host, Rehearsal.perform_act_passed ended asked]
                obtain ⟨made, whole⟩ := ih { m with host := { m.host with
                  recorder := ⟨memory, m.host.recorder.actions.push action⟩
                  events := m.host.events.push (.act action) } }
                refine ⟨made.trans ?_, whole⟩
                simp
              · have refused : (guard m.host.recorder.memory action).2 ≠ none := by simp [asked]
                obtain ⟨m', fault, stopped, same⟩ :=
                  Rehearsal.perform_act_refused noted c (.inr refused)
                simp [host, stopped, same]

theorem bodyMoves_of_skipsDelay {c : Command} (skips : c.skipsDelay = true) :
    c.bodyMoves = [] := by
  cases c with
  | plain raw line deed =>
      cases deed with
      | comment text => rfl
      | delay ms | setDefaultDelay ms | typeText text | press keys => cases skips
  | again raw line count target => cases skips

/-- The first thing that a run asks of its host, the log apart, is a wait: a command that does
not wait does nothing else either. -/
theorem eventsOf_runMoves_head (d : Int) (cs : List Command) (action : Action) :
    (eventsOf (runMoves d cs)).head? ≠ some (.act action) := by
  induction cs generalizing d with
  | nil => simp [runMoves, eventsOf]
  | cons c rest ih =>
      rw [eventsOf_runMoves_cons, Command.moves, eventsOf_append, eventsOf_frontMoves]
      cases skips : c.skipsDelay with
      | true =>
          rw [bodyMoves_of_skipsDelay skips]
          exact ih (c.delayAfter d)
      | false => simp

end

namespace Script

section

variable {σ : Type} (host : Host σ)

/-- A run that fails does so in one of its commands: the run of those before it succeeds, and
the default delay is the one they set last. -/
theorem runLoaded_fault {s : Script} (linked : Linked s.commands.reverse) {state : σ}
    (failed : (s.runLoaded host state).2 ≠ none) :
    ∃ k < s.commands.length,
      (({ s with commands := s.commands.take k } : Script).runLoaded host state).2 = none ∧
      (({ s with commands := s.commands.take (k + 1) } : Script).runLoaded host state).2 =
        (s.runLoaded host state).2 ∧
      (s.runLoaded host state).1.1.delay = lastDelay s.delay (s.commands.take k) := by
  have faults (s : Script) : (s.runLoaded host state).2 =
      (performAll host s.moves ⟨s.delay, state⟩).2 := by
    obtain ⟨records, run⟩ := s.runLoaded_eq_performAll host state
    rw [run]
  obtain ⟨records, run⟩ := s.runLoaded_eq_performAll host state
  rcases performed : performAll host s.moves ⟨s.delay, state⟩ with ⟨m, _ | fault⟩
  · rw [faults, performed] at failed
    exact absurd rfl failed
  · obtain ⟨k, hk, before, fails, delay⟩ :=
      runMoves_fault host (m := Machine.note host ⟨s.delay, state⟩ s.startRecord) performed
    refine ⟨k, hk, (faults _).trans before, ?_, ?_⟩
    · rw [run, performed]
      exact (faults _).trans fails
    · rw [run, performed, ← delayAfterAll_eq_lastDelay (linked.take k)]
      exact delay

end

/-- A rehearsal makes the events of the commands, up to the cut. -/
theorem runLoaded_events {μ : Type} (guard : Guard μ) (noted : Bool) (s : Script)
    (r : Rehearsal μ) :
    let out := s.runLoaded (Rehearsal.host guard .recorded true noted) r
    let whole := eventsOf (runMoves s.delay s.commands)
    let cut := cutAt guard r.recorder.memory r.countdown whole
    out.1.2.events.toList = r.events.toList ++ whole.take (cut.getD whole.length) ∧
      (out.2 = none ↔ cut = none) := by
  intro out whole cut
  obtain ⟨records, run⟩ :=
    s.runLoaded_eq_performAll (Rehearsal.host guard .recorded true noted) r
  obtain ⟨made, complete⟩ := Rehearsal.performAll_events guard noted s.moves ⟨s.delay, r⟩
  have stop : stopAt guard r.recorder.memory r.countdown whole = cut :=
    stopAt_eq_cutAt (.inr (eventsOf_runMoves_head s.delay s.commands)) r.recorder.memory
  have events : eventsOf s.moves = whole := rfl
  simp only [events, stop] at made complete
  have silent := silent_noteAll (Rehearsal.host guard .recorded true noted) records
    (performAll (Rehearsal.host guard .recorded true noted) s.moves ⟨s.delay, r⟩).1.host
    (List Event) (fun r => r.events.toList) (fun record r => by cases noted <;> rfl)
  simp only [out, run]
  exact ⟨silent.trans made, complete⟩

end Script

/-- What a rehearsal of a loaded script leaves when it is cut short. Let `whole` be the events
of the run that nothing stops. The guard or the countdown cuts them at one point, which can be
told without running anything: the events are those before the cut, the run fails exactly when
there is one, and then the default delay is the one that was set last before the command that
failed. -/
theorem run_cut_short {μ : Type} (guard : Guard μ) (noted : Bool) {s : Script}
    {held : List Command} (reachable : s.Reachable held) (loaded : s.loaded = true)
    (disk : Disk) (r : Rehearsal μ) :
    let host := Rehearsal.host guard .recorded true noted
    let unguarded := Rehearsal.host (fun (memory : μ) _ => (memory, none)) .recorded true noted
    let free := s.run unguarded disk { r with countdown := none }
    let out := s.run host disk r
    ∃ whole, free.2 = none ∧ free.1.2.events.toList = r.events.toList ++ whole ∧
      let cut := cutAt guard r.recorder.memory r.countdown whole
      out.1.2.events.toList = r.events.toList ++ whole.take (cut.getD whole.length) ∧
      (out.2 = none ↔ cut = none) ∧
      (out.2 ≠ none → ∃ k < s.commands.length,
        (({ s with commands := s.commands.take k } : Script).run host disk r).2 = none ∧
        (({ s with commands := s.commands.take (k + 1) } : Script).run host disk r).2 = out.2 ∧
        out.1.1.delay = lastDelay s.delay (s.commands.take k)) := by
  intro host unguarded free out
  have start : ({ r with countdown := none } : Rehearsal μ).countdown = none := rfl
  have obliges : unguarded.Obliges (fun r => r.countdown = none) (fun r => r.events.toList) :=
    Rehearsal.host_obliges (fun _ _ => rfl) noted
  obtain ⟨state, through, grown⟩ := obliges.runLoaded s start
  simp only [free, out, Script.run_of_loaded _ loaded, through]
  obtain ⟨made, complete⟩ := s.runLoaded_events guard noted r
  refine ⟨eventsOf (runMoves s.delay s.commands), trivial, grown, made, complete,
    fun failed => ?_⟩
  obtain ⟨k, hk, before, fails, delay⟩ :=
    Script.runLoaded_fault host reachable.settled.linked failed
  have first (n : Nat) := Script.run_of_loaded host
    (s := { s with commands := s.commands.take n }) loaded disk r
  exact ⟨k, hk, (congrArg Prod.snd (first k)).trans before,
    (congrArg Prod.snd (first (k + 1))).trans fails, delay⟩

/-- A guard that lets two actions pass stops a repetition in its second round, before the fourth
wait could call the run off. -/
theorem run_cut_short_repetition :
    let guard : Guard Nat := fun n _ => (n + 1, if n < 2 then none else some [.canceled])
    let host := Rehearsal.host guard .recorded true false
    let source : Source :=
      ⟨utf8 "DEFAULT_DELAY 5\nSTRING a\nREPEAT 2\nDEFAULT_DELAY 9\nSTRING b", none⟩
    let s := (({ path := utf8 "a" } : Script).tryLoadFrom source).1
    let disk : Disk := fun _ => .ok .directory
    let r : Rehearsal Nat := { recorder := ⟨0, #[]⟩, countdown := some 4 }
    let out := s.run host disk r
    let a := Event.act (.type (utf8 "a"))
    out.1.2.events.toList = [.wait 0, .wait 5, a, .wait 5, a] ∧ out.2 ≠ none ∧
      out.1.1.delay = 5 := by
  intro guard host source s disk r out a
  have reachable : s.Reachable [] := .loadFrom source (.found (fun _ => .ok (.file [])) rfl)
  obtain ⟨loaded, free⟩ : s.loaded = true ∧
      (s.run (Rehearsal.host (fun (n : Nat) _ => (n, none)) .recorded true false) disk
        { r with countdown := none }).1.2.events.toList =
      [.wait 0, .wait 5, a, .wait 5, a, a, .wait 5, .wait 9, .act (.type (utf8 "b"))] := by
    decide +kernel
  obtain ⟨whole, _, grown, made, complete, failed⟩ :=
    run_cut_short guard false reachable loaded disk r
  have hwhole := grown.symm.trans free
  rw [show r.events.toList = [] from rfl, List.nil_append] at hwhole made
  rw [hwhole] at made complete
  have stopped : out.2 ≠ none := fun none => by
    have uncut := complete.mp none
    revert uncut
    decide +kernel
  obtain ⟨k, hk, before, fails, delay⟩ := failed stopped
  have third : ∀ k < s.commands.length,
      (({ s with commands := s.commands.take k } : Script).run host disk r).2 = none →
      (({ s with commands := s.commands.take (k + 1) } : Script).run host disk r).2 ≠ none →
      lastDelay s.delay (s.commands.take k) = 5 := by
    decide +kernel
  refine ⟨made.trans (by decide +kernel), stopped, delay.trans (third k hk before ?_)⟩
  rw [fails]
  exact stopped

end KeyScript
