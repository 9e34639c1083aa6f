import Mathlib.Data.List.Forall2
import KeyScript.Proofs.FailSafe
import KeyScript.Proofs.Interruption
import KeyScript.Proofs.Presses

/-!
A rehearsal says what will be injected. A script is run on a display and
rehearsed, and the two runs go on side by side: whatever a command asks for, both
hosts do it, and the calls that press keys or type text keep pace with the
actions that are recorded.
-/

namespace KeyScript

/-- A move that asks for no other actions than those in `ok`. -/
def Move.Asks (ok : Action → Prop) : Move → Prop
  | .act _ action => ok action
  | .note _ | .wait _ _ | .setDelay _ => True

section

variable {σ τ : Type}

/-- Hosts that refuse nothing as long as they are asked for actions in `ok`, and whose states
stay related. -/
structure Host.KeepsPace (host : Host σ) (host' : Host τ) (ok : Action → Prop)
    (R : σ → τ → Prop) : Prop where
  sleep : ∀ length s t, R s t → ∃ s' t',
    host.sleep length s = (s', none) ∧ host'.sleep length t = (t', none) ∧ R s' t'
  act : ∃ perform perform', host.keyboard = some perform ∧ host'.keyboard = some perform' ∧
    ∀ action s t, ok action → R s t → ∃ s' t',
      perform action s = (s', none) ∧ perform' action t = (t', none) ∧ R s' t'
  note : ∀ record s t, R s t → R (host.note record s) t ∧ R s (host'.note record t)

namespace Host.KeepsPace

variable {host : Host σ} {host' : Host τ} {ok : Action → Prop} {R : σ → τ → Prop}
  (h : host.KeepsPace host' ok R)
include h

theorem perform {x : Move} (asks : x.Asks ok) {m : Machine σ} {n : Machine τ}
    (delay : m.delay = n.delay) (related : R m.host n.host) :
    ∃ m' n', x.perform host m = (m', none) ∧ x.perform host' n = (n', none) ∧
      m'.delay = n'.delay ∧ R m'.host n'.host := by
  cases x with
  | note r =>
      have noted := (h.note r _ _ (h.note r _ _ related).1).2
      exact ⟨_, _, rfl, rfl, delay, noted⟩
  | wait c ms =>
      obtain ⟨s, t, slept, slept', related⟩ := h.sleep (nanosOfMillis ms) _ _ related
      refine ⟨{ m with host := s }, { n with host := t }, ?_, ?_, delay, related⟩
      · simp only [Move.perform, waitFor, slept]
      · simp only [Move.perform, waitFor, slept']
  | act c action =>
      obtain ⟨perform, perform', keyboard, keyboard', acts⟩ := h.act
      obtain ⟨s, t, acted, acted', related⟩ := acts action _ _ asks related
      refine ⟨{ m with host := s }, { n with host := t }, ?_, ?_, delay, related⟩
      · simp only [Move.perform, performFor, keyboard, acted]
      · simp only [Move.perform, performFor, keyboard', acted']
  | setDelay ms => exact ⟨_, _, rfl, rfl, rfl, related⟩

theorem performAll {xs : List Move} (asks : ∀ x ∈ xs, x.Asks ok) {m : Machine σ} {n : Machine τ}
    (delay : m.delay = n.delay) (related : R m.host n.host) :
    ∃ m' n', KeyScript.performAll host xs m = (m', none) ∧
      KeyScript.performAll host' xs n = (n', none) ∧
      m'.delay = n'.delay ∧ R m'.host n'.host := by
  induction xs generalizing m n with
  | nil => exact ⟨m, n, rfl, rfl, delay, related⟩
  | cons x xs ih =>
      obtain ⟨mid, mid', first, first', delay, related⟩ :=
        h.perform (asks x List.mem_cons_self) delay related
      obtain ⟨m', n', rest, rest', delay, related⟩ :=
        ih (fun y hy => asks y (List.mem_cons_of_mem _ hy)) delay related
      refine ⟨m', n', ?_, ?_, delay, related⟩
      · rw [KeyScript.performAll, first, ← rest]
      · rw [KeyScript.performAll, first', ← rest']

theorem noteAll (records : List Record) {s : σ} {t : τ} (related : R s t) :
    R (host.noteAll records s) t ∧ R s (host'.noteAll records t) := by
  induction records generalizing s t with
  | nil => exact ⟨related, related⟩
  | cons r rest ih =>
      obtain ⟨left, right⟩ := h.note r s t related
      exact ⟨(ih left).1, (ih right).2⟩

/-- Runs of a script on both hosts go through, and leave the same script. -/
theorem runLoaded {script : Script} (asks : ∀ x ∈ script.moves, x.Asks ok) {s : σ} {t : τ}
    (related : R s t) :
    ∃ after s' t', script.runLoaded host s = ((after, s'), none) ∧
      script.runLoaded host' t = ((after, t'), none) ∧ R s' t' := by
  obtain ⟨m, n, moved, moved', delay, related⟩ :=
    h.performAll asks (m := ⟨script.delay, s⟩) (n := ⟨script.delay, t⟩) rfl related
  obtain ⟨records, run⟩ := script.runLoaded_eq_performAll host s
  obtain ⟨records', run'⟩ := script.runLoaded_eq_performAll host' t
  rw [moved] at run
  rw [moved', ← delay] at run'
  exact ⟨_, _, _, run, run', (h.noteAll records' (h.noteAll records related).1).2⟩

end Host.KeepsPace
end

theorem named_bodyMoves {c : Command} (h : c.Named) : ∀ x ∈ c.bodyMoves, x.Asks Action.Named := by
  induction c with
  | plain raw line deed =>
      intro x hx
      cases deed with
      | comment text => cases hx
      | delay ms | setDefaultDelay ms | typeText text =>
          rw [List.mem_singleton.mp hx]
          trivial
      | press keys =>
          rw [List.mem_singleton.mp hx]
          exact h
  | again raw line count target ih =>
      intro x hx
      rcases mem_bodyMoves_again hx with rfl | inside
      · trivial
      · exact ih h x inside

theorem named_runMoves {cs : List Command} (h : ∀ c ∈ cs, c.Named) (d : Int) :
    ∀ x ∈ runMoves d cs, x.Asks Action.Named := by
  refine runMoves_forall (D := fun _ => True) (fun _ => trivial) (fun _ _ _ => trivial) ?_ ?_ trivial
  · exact fun c hc => named_bodyMoves (h c hc)
  · exact fun _ _ _ _ => trivial

/-- A display whose programs and pauses never fail, with the fail-safe off or always passed. -/
structure Injection.Unhindered {σ : Type} (i : Injection) (desk : Desk σ) : Prop where
  runs : ∀ program arguments s, ∃ printed, (desk.run program arguments s).2 = .ok printed
  sleeps : ∀ length s, (desk.sleep length s).2 = none
  passes : i.failSafe = true → ∀ s, (i.check desk s).2 = none

/-- The display under a run: its own state, the programs that were run, and how long commands
waited. -/
structure Driven (σ : Type) where
  state : σ
  calls : List Call := []
  waits : List Nanos := []

section

variable {σ : Type} (desk : Desk σ) (i : Injection)

def Injection.host : Host (Driven σ) where
  sleep length d :=
    match desk.sleep length d.state with
    | (state, f) => ({ d with state := state, waits := d.waits ++ [length] }, f)
  keyboard := some fun action d =>
    match i.perform desk.logged action (d.state, d.calls) with
    | ((state, calls), f) => ({ d with state := state, calls := calls }, f)
  note _ d := d

/-- A call that does what an action says. -/
inductive Corresponds : Call → Action → Prop
  | type {call : Call} {text : Text}
      (h : call.arguments = [utf8 "type", utf8 "--delay", utf8 "0", utf8 "--", text]) :
      Corresponds call (.type text)
  | hotkey {call : Call} {keys : List Text} {chord : Text}
      (h : call.arguments = [utf8 "key", utf8 "--clearmodifiers", chord])
      (noOption : chord.head? ≠ some 45) (split : chord.split 43 = keys.map Key.keysym) :
      Corresponds call (.hotkey keys)

theorem corresponds_of_arguments {action : Action} (named : action.Named) {arguments : List Text}
    (h : action.arguments = some arguments) (program : Text) (answer : Except Failure Text) :
    Corresponds ⟨program, arguments, answer⟩ action := by
  cases action with
  | type text =>
      cases text with
      | nil => cases h
      | cons b text =>
          cases h
          exact .type rfl
  | hotkey keys =>
      obtain ⟨filled, names⟩ := named
      have spelled : ∀ symbol ∈ keys.map Key.keysym, Key.Spelled symbol :=
        List.forall_mem_map.mpr fun key hk => Key.keysym_spelled (names key hk)
      cases keys with
      | nil => cases h
      | cons key keys =>
          cases h
          refine .hotkey rfl ?_ (split_chord (by simp) fun symbol hs => (spelled symbol hs).2.1)
          obtain ⟨first, -, noOption⟩ := spelled (Key.keysym key) List.mem_cons_self
          exact (head?_chord first (keys.map Key.keysym)).symm ▸ noOption

variable {desk i}

theorem Injection.Unhindered.inject_none (h : i.Unhindered desk) (arguments : List Text) (s : σ) :
    (i.inject desk arguments s).2 = none := by
  obtain ⟨printed, ran⟩ := h.runs i.binary arguments s
  rw [Injection.inject]
  rcases hr : desk.run i.binary arguments s with ⟨after, e | answer⟩
  · rw [hr] at ran
    cases ran
  · exact h.sleeps i.pause after

theorem Injection.Unhindered.perform_none (h : i.Unhindered desk) (action : Action) (s : σ) :
    (i.perform desk action s).2 = none := by
  rw [Injection.perform]
  split
  · rfl
  · split
    · rename_i on
      have passed := h.passes on s
      rcases hc : i.check desk s with ⟨after, _ | f⟩
      · exact h.inject_none _ after
      · rw [hc] at passed
        cases passed
    · exact h.inject_none _ s

/-- An action is performed by one call that does what it says, besides queries; text that is empty
takes no call. -/
theorem Performed.corresponds {action : Action} (named : action.Named) {calls : List Call}
    (h : Performed i ⟨action, calls, none⟩) :
    List.Forall₂ Corresponds (calls.filter fun call => call.Injects)
      ([action].filter fun action => action ≠ .type []) := by
  have injects {arguments : List Text} (ha : action.arguments = some arguments)
      (answer : Except Failure Text) :
      List.Forall₂ Corresponds ([⟨i.binary, arguments, answer⟩].filter fun call => call.Injects)
        ([action].filter fun action => action ≠ .type []) := by
    have typed : action ≠ .type [] := by
      rintro rfl
      cases ha
    rw [List.filter_cons_of_pos (by simpa using injects_of_arguments ha i.binary answer),
      List.filter_cons_of_pos (by simpa using typed)]
    exact .cons (corresponds_of_arguments named ha i.binary answer) .nil
  cases h with
  | idle none =>
      have empty : action = .type [] := by
        cases action with
        | hotkey keys => exact absurd (arguments_eq_none_iff.mp none).1 named.1
        | type text => exact congrArg Action.type (arguments_eq_none_iff.mp none).2
      rw [empty]
      exact .nil
  | @passed _ _ queries on some checked answer result =>
      have none : (queries.filter fun call => call.Injects) = [] := by
        rw [List.filter_eq_nil_iff]
        intro call hc
        simpa using checked.not_injects call hc
      rw [List.filter_append, none]
      exact injects some answer
  | unguarded off some answer result => exact injects some answer

end

def Event.sleep? : Event → Option Nanos
  | .sleep length => some length
  | .act _ => none

section

variable {σ μ : Type} {desk : Desk σ} {i : Injection} {guard : Guard μ}

/-- What was injected so far corresponds to what was recorded so far. -/
structure InStep (d : Driven σ) (r : Rehearsal μ) : Prop where
  running : r.countdown = none
  waits : d.waits = r.events.toList.filterMap Event.sleep?
  acts : List.Forall₂ Corresponds (d.calls.filter fun call => call.Injects)
    (r.recorder.actions.toList.filter fun action => action ≠ .type [])

theorem InStep.keepsPace (unhindered : i.Unhindered desk)
    (open_ : ∀ memory action, (guard memory action).2 = none) (noted : Bool) :
    (i.host desk).KeepsPace (Rehearsal.host guard .recorded true noted) Action.Named InStep where
  sleep length d r h := by
    have never := unhindered.sleeps length d.state
    rcases hs : desk.sleep length d.state with ⟨state, _ | f⟩
    · refine ⟨{ d with state := state, waits := d.waits ++ [length] },
        { r with events := r.events.push (.sleep length) }, ?_, ?_, h.running, ?_, h.acts⟩
      · simp only [Injection.host, hs]
      · simp [Rehearsal.host, Rehearsal.sleep, h.running, Countdown.tick, Countdown.failure,
          Countdown.isOver]
      · simp [h.waits, Event.sleep?]
    · rw [hs] at never
      cases never
  act := by
    refine ⟨_, Rehearsal.perform guard, rfl, rfl, fun action d r named h => ?_⟩
    obtain ⟨calls, performed, logs⟩ := i.perform_logged desk action d.state
    rw [unhindered.perform_none] at performed
    have passes := open_ r.recorder.memory action
    rcases hg : guard r.recorder.memory action with ⟨memory, _ | refusal⟩
    · refine ⟨{ d with state := (i.perform desk action d.state).1, calls := d.calls ++ calls },
        { r with recorder := ⟨memory, r.recorder.actions.push action⟩
                 events := r.events.push (.act action) }, ?_, ?_, h.running, ?_, ?_⟩
      · simp only [logs d.calls, unhindered.perform_none]
      · simp [Rehearsal.perform, Recorder.record, h.running, hg, Countdown.isOver]
      · simp [h.waits, Event.sleep?]
      · rw [Array.toList_push, List.filter_append, List.filter_append]
        exact List.rel_append h.acts (performed.corresponds named)
    · rw [hg] at passes
      cases passes
  note record d r h := by
    refine ⟨h, ?_⟩
    cases noted
    · exact h
    · exact ⟨h.running, h.waits, h.acts⟩

/-- A loaded script that is run on a display where nothing fails injects what its rehearsal
records, whatever the default delay is at the start. Both runs go through and leave the same
script. The calls that press keys or type text correspond one to one and in order to the recorded
actions, but that empty text is not typed, and commands wait equally long in both runs. -/
theorem rehearsal_predicts_injection (unhindered : i.Unhindered desk)
    (open_ : ∀ memory action, (guard memory action).2 = none)
    {s loaded : Script} {source : Source} (accepted : s.loadFrom source = .ok loaded) (d : Int)
    (disk : Disk) (noted : Bool) (state : σ) (memory : μ) :
    let script : Script := { loaded with delay := d }
    ∃ (after : Script) (driven : Driven σ) (r : Rehearsal μ),
      script.run (i.host desk) disk { state := state } = ((after, driven), none) ∧
      script.run (Rehearsal.host guard .recorded true noted) disk { recorder := ⟨memory, #[]⟩ } =
        ((after, r), none) ∧
      List.Forall₂ Corresponds (driven.calls.filter fun call => call.Injects)
        (r.recorder.actions.toList.filter fun action => action ≠ .type []) ∧
      driven.waits = r.events.toList.filterMap Event.sleep? := by
  intro script
  obtain ⟨cs, commands, rfl⟩ := Script.loadFrom_eq_ok_iff.mp accepted
  have asks : ∀ x ∈ script.moves, x.Asks Action.Named :=
    List.forall_mem_cons.mpr ⟨trivial, named_runMoves (commands_named commands) d⟩
  have start : InStep ({ state := state } : Driven σ)
      ({ recorder := ⟨memory, #[]⟩ } : Rehearsal μ) := ⟨rfl, rfl, .nil⟩
  obtain ⟨after, driven, r, run, run', inStep⟩ :=
    (InStep.keepsPace unhindered open_ noted).runLoaded asks start
  refine ⟨after, driven, r, ?_, ?_, inStep.acts, inStep.waits⟩
  · rw [Script.run_of_loaded _ rfl, run]
  · rw [Script.run_of_loaded _ rfl, run']

/-- A repeated chord with the separator among its keys, and empty text. -/
theorem rehearsal_predicts_injection_chord :
    let desk : Desk Unit :=
      ⟨fun _ arguments _ => ((), .ok (utf8 (if arguments = placeQuery then "X=5\nY=0" else "9 9"))),
        fun _ _ => ((), none)⟩
    let i : Injection := { binary := utf8 "xdotool", pause := 0, failSafe := true }
    let guard : Guard Unit := fun _ _ => ((), none)
    let source : Source := ⟨utf8 "CTRL +\nREPEAT 1\nSTRING \nSTRING -a+", none⟩
    let s : Script := { path := utf8 "a" }
    let script : Script := { (s.tryLoadFrom source).1 with delay := 3 }
    let disk : Disk := fun _ => .ok .directory
    let driven := (script.run (i.host desk) disk { state := () }).1.2
    let r := (script.run (Rehearsal.host guard .recorded true false) disk
      { recorder := ⟨(), #[]⟩ }).1.2
    let chord : Action := .hotkey [utf8 "ctrl", utf8 "+"]
    r.recorder.actions.toList = [chord, chord, .type [], .type (utf8 "-a+")] ∧
      (driven.calls.filter fun call => call.Injects).map (fun call => call.arguments.getLast?) =
        [some (utf8 "ctrl+plus"), some (utf8 "ctrl+plus"), some (utf8 "-a+")] ∧
      List.Forall₂ Corresponds (driven.calls.filter fun call => call.Injects)
        (r.recorder.actions.toList.filter fun action => action ≠ .type []) ∧
      driven.waits = r.events.toList.filterMap Event.sleep? := by
  intro desk i guard source s script disk driven r chord
  have passes : (i.check desk ()).2 = none := by decide +kernel
  have unhindered : i.Unhindered desk :=
    ⟨fun _ _ _ => ⟨_, rfl⟩, fun _ _ => rfl, fun _ _ => passes⟩
  have open_ : ∀ memory action, (guard memory action).2 = none := fun _ _ => rfl
  have computed : (s.tryLoadFrom source).2 = none ∧
      r.recorder.actions.toList = [chord, chord, .type [], .type (utf8 "-a+")] ∧
      (driven.calls.filter fun call => call.Injects).map (fun call => call.arguments.getLast?) =
        [some (utf8 "ctrl+plus"), some (utf8 "ctrl+plus"), some (utf8 "-a+")] := by
    decide +kernel
  obtain ⟨ok, recorded, injected⟩ := computed
  obtain ⟨after, driven', r', run, run', acts, waits⟩ :=
    rehearsal_predicts_injection unhindered open_ (Script.loadFrom_of_none ok) 3 disk false () ()
  have hd : driven = driven' := congrArg (fun out => out.1.2) run
  have hr : r = r' := congrArg (fun out => out.1.2) run'
  rw [← hd, ← hr] at acts waits
  exact ⟨recorded, injected, acts, waits⟩

end
end KeyScript
