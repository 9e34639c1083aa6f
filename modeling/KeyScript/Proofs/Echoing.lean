import KeyScript.Proofs.DryRun
import KeyScript.Proofs.Inspection

/-!
What a rehearsal prints determines what it recorded. A loaded script presses only
keys whose names can be told apart in a chord and have no line break in them, so
every action has a line of its own that no other action has. A recorder keeps
nothing but what it was asked for, however the run ends.
-/

namespace KeyScript

namespace Action

/-- An action that its line determines, and that takes only one line. -/
def Legible : Action → Prop
  | .hotkey keys => ∀ key ∈ keys, Key.Apart key ∧ newline ∉ key
  | .type _ => True

theorem newline_notMem_describe {a : Action} (h : a.Legible) : newline ∉ a.describe := by
  cases a with
  | hotkey keys =>
      rw [describe, List.mem_append, not_or]
      exact ⟨by decide, Text.newline_notMem_chord fun key hk => (h key hk).2⟩
  | type text =>
      rw [describe, List.mem_append, not_or]
      exact ⟨by decide, Text.newline_notMem_quote text⟩

theorem describe_inj {a b : Action} (ha : a.Legible) (hb : b.Legible)
    (same : a.describe = b.describe) : a = b := by
  have kinds (t u : Text) : utf8 "hotkey " ++ t ≠ utf8 "type " ++ u := by
    have h : utf8 "hotkey " = 104 :: utf8 "otkey " := by decide
    have t : utf8 "type " = 116 :: utf8 "ype " := by decide
    rw [h, t]
    exact fun same => absurd (List.cons.inj same).1 (by decide)
  cases a with
  | hotkey keys =>
      cases b with
      | hotkey keys' =>
          have chords : chord keys = chord keys' := List.append_cancel_left same
          exact congrArg hotkey
            (Key.chord_inj (fun key hk => (ha key hk).1) (fun key hk => (hb key hk).1) chords)
      | type text => exact absurd same (kinds _ _)
  | type text =>
      cases b with
      | hotkey keys => exact absurd same.symm (kinds _ _)
      | type text' => exact congrArg type (Text.quote_inj (List.append_cancel_left same))

end Action

/-- The lines of legible actions determine the actions. -/
theorem Recorder.echo_inj {actions actions' : List Action} (h : ∀ a ∈ actions, a.Legible)
    (h' : ∀ a ∈ actions', a.Legible) (same : echo actions = echo actions') :
    actions = actions' := by
  have cons (a : Action) (rest : List Action) :
      echo (a :: rest) = a.describe ++ newline :: echo rest := by
    simp [echo]
  induction actions generalizing actions' with
  | nil =>
      cases actions' with
      | nil => rfl
      | cons b rest' =>
          rw [cons] at same
          exact absurd same.symm (by simp [echo])
  | cons a rest ih =>
      obtain ⟨first, others⟩ := List.forall_mem_cons.mp h
      cases actions' with
      | nil =>
          rw [cons] at same
          exact absurd same (by simp [echo])
      | cons b rest' =>
          obtain ⟨first', others'⟩ := List.forall_mem_cons.mp h'
          rw [cons, cons] at same
          obtain ⟨lines, behind⟩ := Text.append_cons_inj (Action.newline_notMem_describe first)
            (Action.newline_notMem_describe first') same
          rw [Action.describe_inj first first' lines, ih others others' behind]

theorem legible_of_readKeys {t : Text} {keys : List Text} (h : readKeys t.fields = .ok keys) :
    (Action.hotkey keys).Legible := by
  intro key hk
  have named : Key.isName key := (readKeys_spec h).2 key hk
  have solid : key.Solid := solid_of_mem_keys h key hk
  exact ⟨Key.apart_of_isName named, Text.notMem_of_solid (by decide) (by decide) solid⟩

/-- What a command does behind its wait is legible: it is read from its own line, or is that of
the command it repeats. -/
theorem legible_bodyMoves {source : Source} {cs : List Command} (h : source.commands = .ok cs) :
    ∀ c ∈ cs, ∀ x ∈ c.bodyMoves, x.Asks Action.Legible := by
  have parsed {raw : Text} {line : Int} {recent : List Command} {c : Command}
      (before : ∀ b ∈ recent, ∀ x ∈ b.bodyMoves, x.Asks Action.Legible)
      (hp : Command.parse raw line (some recent) = .ok c) :
      ∀ x ∈ c.bodyMoves, x.Asks Action.Legible := by
    intro x hx
    obtain ⟨deed, read, rfl⟩ | ⟨count, -, rfl⟩ := parse_cases hp
    · cases deed with
      | comment text => cases hx
      | delay ms | setDefaultDelay ms | typeText text =>
          rw [List.mem_singleton.mp hx]
          trivial
      | press keys =>
          rw [List.mem_singleton.mp hx]
          exact legible_of_readKeys (read_press read)
    · rcases mem_bodyMoves_again hx with rfl | inside
      · trivial
      · cases found : recent.find? fun b => b.line < line with
        | none =>
            rw [found] at inside
            cases inside
        | some b =>
            rw [found] at inside
            exact before b (List.mem_of_find?_eq_some found) x inside
  exact readLines_forall parsed (fun _ hc => absurd hc List.not_mem_nil)
    (Source.commands_eq_ok h)

theorem Recorder.actions_record {μ : Type} (guard : Guard μ) (canceled : Bool) (action : Action)
    (r : Recorder μ) :
    (r.record guard canceled action).1.actions = r.actions ∨
      (r.record guard canceled action).1.actions = r.actions.push action := by
  simp only [record]
  split
  · exact .inl rfl
  · split
    · exact .inl rfl
    · exact .inr rfl

section

variable {σ μ : Type}

/-- A host whose keyboard is a recorder, under whatever clock and log. The run may be called off
at any time. -/
structure Host.Records (host : Host σ) (guard : Guard μ) (recorder : σ → Recorder μ) : Prop where
  sleep : ∀ length s, recorder (host.sleep length s).1 = recorder s
  act : ∃ perform, host.keyboard = some perform ∧ ∀ action s, ∃ canceled,
    (recorder (perform action s).1, (perform action s).2) =
      (recorder s).record guard canceled action
  note : ∀ record s, recorder (host.note record s) = recorder s

theorem Rehearsal.host_records (guard : Guard μ) (timed noted : Bool) :
    (Rehearsal.host guard .recorded timed noted).Records guard Rehearsal.recorder where
  sleep length r := by cases timed <;> rfl
  act := by
    refine ⟨_, rfl, fun action r => ⟨r.countdown.isOver, ?_⟩⟩
    simp only [Rehearsal.perform]
    rcases r.recorder.record guard r.countdown.isOver action with ⟨after, _ | refusal⟩ <;> rfl
  note record r := by cases noted <;> rfl

namespace Host.Records

variable {host : Host σ} {guard : Guard μ} {recorder : σ → Recorder μ}
  (h : host.Records guard recorder) {ok : Action → Prop}
include h

theorem perform {x : Move} (asks : x.Asks ok) {m : Machine σ}
    (before : ∀ a ∈ (recorder m.host).actions, ok a) :
    ∀ a ∈ (recorder (x.perform host m).1.host).actions, ok a := by
  cases x with
  | note r => exact h.note r m.host ▸ before
  | setDelay ms => exact before
  | wait c ms =>
      have same := h.sleep (nanosOfMillis ms) m.host
      simp only [Move.perform, waitFor]
      rcases slept : host.sleep (nanosOfMillis ms) m.host with ⟨s, _ | f⟩ <;>
        rw [slept] at same <;> exact same ▸ before
  | act c action =>
      obtain ⟨perform, keyboard, acts⟩ := h.act
      obtain ⟨canceled, kept⟩ := acts action m.host
      have view : recorder (perform action m.host).1 =
          ((recorder m.host).record guard canceled action).1 := congrArg Prod.fst kept
      have after : ∀ a ∈ (recorder (perform action m.host).1).actions, ok a := by
        rw [view]
        rcases (recorder m.host).actions_record guard canceled action with same | more
        · exact same ▸ before
        · rw [more]
          exact Array.forall_mem_push.mpr ⟨asks, before⟩
      simp only [Move.perform, performFor, keyboard]
      rcases acted : perform action m.host with ⟨s, _ | f⟩ <;> rw [acted] at after <;> exact after

theorem performAll {xs : List Move} (asks : ∀ x ∈ xs, x.Asks ok) {m : Machine σ}
    (before : ∀ a ∈ (recorder m.host).actions, ok a) :
    ∀ a ∈ (recorder (KeyScript.performAll host xs m).1.host).actions, ok a := by
  induction xs generalizing m with
  | nil => exact before
  | cons x xs ih =>
      obtain ⟨first, others⟩ := List.forall_mem_cons.mp asks
      have after := h.perform first before
      simp only [KeyScript.performAll]
      rcases moved : x.perform host m with ⟨m', _ | fault⟩
      · rw [moved] at after
        exact ih others after
      · rw [moved] at after
        exact after

theorem noteAll (records : List Record) (s : σ) :
    recorder (host.noteAll records s) = recorder s := by
  induction records generalizing s with
  | nil => rfl
  | cons r rest ih => exact (ih (host.note r s)).trans (h.note r s)

/-- A recorder keeps only what the moves of the script ask for, wherever the run ends. -/
theorem runLoaded {script : Script} (asks : ∀ x ∈ script.moves, x.Asks ok) {s : σ}
    (before : ∀ a ∈ (recorder s).actions, ok a) :
    ∀ a ∈ (recorder (script.runLoaded host s).1.2).actions, ok a := by
  obtain ⟨records, run⟩ := script.runLoaded_eq_performAll host s
  rw [run]
  exact (h.noteAll records _).symm ▸ h.performAll asks (m := ⟨script.delay, s⟩) before

end Host.Records
end

/-- The actions that a recorder has kept after a run of a loaded script. The run may have gone
through, or may have been stopped by the guard of the recorder, by the clock or by being called
off. -/
inductive Rehearsed (actions : List Action) : Prop
  | run {σ μ : Type} {host : Host σ} {guard : Guard μ} {recorder : σ → Recorder μ}
      (records : host.Records guard recorder) {s loaded : Script} {source : Source}
      (accepted : s.loadFrom source = .ok loaded) (d : Int) (disk : Disk) {state : σ}
      (fresh : (recorder state).actions = #[])
      (kept : (recorder (({ loaded with delay := d } : Script).run host disk
        state).1.2).actions.toList = actions)

theorem Rehearsed.legible {actions : List Action} (h : Rehearsed actions) :
    ∀ a ∈ actions, a.Legible := by
  obtain ⟨records, accepted, d, disk, fresh, rfl⟩ := h
  obtain ⟨cs, commands, rfl⟩ := Script.loadFrom_eq_ok_iff.mp accepted
  have asks : ∀ x ∈ runMoves d cs, x.Asks Action.Legible :=
    runMoves_forall (D := fun _ => True) (fun _ => trivial) (fun _ _ _ => trivial)
      (legible_bodyMoves commands) (fun _ _ _ _ => trivial) trivial
  intro a ha
  rw [Script.run_of_loaded _ rfl, Array.mem_toList_iff] at ha
  refine records.runLoaded (List.forall_mem_cons.mpr ⟨trivial, asks⟩) ?_ a ha
  rw [fresh]
  exact fun _ none => absurd none (Array.not_mem_empty _)

/-- Two rehearsals of loaded scripts that print the same text have recorded the same actions. -/
theorem echo_determines_actions {actions actions' : List Action} (h : Rehearsed actions)
    (h' : Rehearsed actions') (same : Recorder.echo actions = Recorder.echo actions') :
    actions = actions' :=
  Recorder.echo_inj h.legible h'.legible same

/-- A chord with the separator among its keys and a text with a quote in it: one run goes through,
the other is stopped by its guard in front of a third action, and both print the same two lines. -/
theorem echo_determines_actions_cut :
    let guard : Guard Nat := fun n _ => (n + 1, if n < 2 then none else some [.canceled])
    let s : Script := { path := utf8 "a" }
    let disk : Disk := fun _ => .ok .directory
    let r : Rehearsal Nat := { recorder := ⟨0, #[]⟩ }
    let host := Rehearsal.host guard .recorded true false
    let kept (source : Source) : List Action :=
      (({ (s.tryLoadFrom source).1 with delay := 3 } : Script).run host disk
        r).1.2.recorder.actions.toList
    let short : Source := ⟨utf8 "CTRL-+ +\nSTRING \"\\", none⟩
    let long : Source := ⟨utf8 "CONTROL + +\nREM a\nSTRING \"\\\nREPEAT 3", none⟩
    Recorder.echo (kept short) = utf8 "hotkey ctrl++++\ntype \"\\\"\\\\\"\n" ∧
      Recorder.echo (kept short) = Recorder.echo (kept long) ∧ kept short = kept long := by
  intro guard s disk r host kept short long
  have computed : (s.tryLoadFrom short).2 = none ∧ (s.tryLoadFrom long).2 = none ∧
      Recorder.echo (kept short) = utf8 "hotkey ctrl++++\ntype \"\\\"\\\\\"\n" ∧
      Recorder.echo (kept short) = Recorder.echo (kept long) := by
    decide +kernel
  obtain ⟨loaded, loaded', shown, same⟩ := computed
  have records : host.Records guard Rehearsal.recorder := Rehearsal.host_records guard true false
  have fresh : (Rehearsal.recorder r).actions = #[] := rfl
  refine ⟨shown, same, echo_determines_actions ?_ ?_ same⟩
  · exact .run records (Script.loadFrom_of_none loaded) 3 disk fresh rfl
  · exact .run records (Script.loadFrom_of_none loaded') 3 disk fresh rfl

end KeyScript
