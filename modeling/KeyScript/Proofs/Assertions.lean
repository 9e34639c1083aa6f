import KeyScript.Proofs.BareMachine
import KeyScript.Proofs.DelayHistory

/-!
No script breaks a contract. The machine on bare records, which makes all checks,
does what commands do through every history; and a run of commands breaks a
contract only for want of a keyboard.
-/

namespace KeyScript

/-- A script of records, and the records that were taken from it so far. -/
structure BareInUse where
  script : BareScript
  held : List Bare := []

/-- What a use leaves; one that is refused leaves everything as it was. -/
def Use.applyBare : Use → BareInUse → BareInUse
  | .load disk, u => { u with script := (u.script.tryLoad disk).1 }
  | .loadFrom source, u => { u with script := (u.script.tryLoadFrom source).1 }
  | .run host disk state, u => { u with script := (u.script.run host disk state).1.1 }
  | .setDelay ms, u =>
    match u.script.setDelay ms with
    | .ok script => { u with script := script }
    | .error _ => u
  | .parse raw line, u =>
    match u.script.parse raw line with
    | .ok c => { u with held := c :: u.held }
    | .error _ => u
  | .take, u => { u with held := u.script.commands ++ u.held }
  | .execute host index state, u =>
    match u.held[index]? with
    | some c => { u with script := (u.script.execute host c state).1.1 }
    | none => u

/-- What uses leave that follow one another. -/
def BareInUse.after (u : BareInUse) (uses : List Use) : BareInUse :=
  uses.foldl (fun u use => use.applyBare u) u

def InUse.bare (u : InUse) : BareInUse :=
  { script := u.script.bare, held := u.held.map Command.bare }

/-- The same use, with nothing logged. -/
def Use.muted : Use → Use
  | .run host disk state => .run host.muted disk state
  | .execute host index state => .execute host.muted index state
  | .load disk => .load disk
  | .loadFrom source => .loadFrom source
  | .setDelay ms => .setDelay ms
  | .parse raw line => .parse raw line
  | .take => .take

theorem applyBare_bare (use : Use) (u : InUse) :
    use.applyBare u.bare = (use.muted.apply u).bare := by
  cases use with
  | load disk =>
      simp only [Use.applyBare, Use.muted, Use.apply, InUse.bare, Script.tryLoad_bare]
      rfl
  | loadFrom source =>
      simp only [Use.applyBare, Use.muted, Use.apply, InUse.bare, Script.tryLoadFrom_bare]
      rfl
  | run host disk state =>
      simp only [Use.applyBare, Use.muted, Use.apply, InUse.bare, Script.run_bare]
      rfl
  | setDelay ms =>
      simp only [Use.applyBare, Use.muted, Use.apply, InUse.bare, Script.setDelay_bare]
      cases u.script.setDelay ms <;> rfl
  | parse raw line =>
      simp only [Use.applyBare, Use.muted, Use.apply, InUse.bare, Script.parse_bare]
      cases u.script.parse raw line <;> rfl
  | take =>
      simp only [Use.applyBare, Use.muted, Use.apply, InUse.bare, List.map_append]
      rfl
  | execute host index state =>
      simp only [Use.applyBare, Use.muted, Use.apply, InUse.bare, List.getElem?_map]
      cases u.held[index]? with
      | none => rfl
      | some c =>
          simp only [Option.map_some, Script.execute_bare]
          rfl

/-- Records go through every history as the commands do. -/
theorem after_bare (uses : List Use) (u : InUse) :
    u.bare.after uses = (u.after (uses.map Use.muted)).bare := by
  induction uses generalizing u with
  | nil => rfl
  | cons use rest ih =>
      have step : u.bare.after (use :: rest) = (use.applyBare u.bare).after rest := rfl
      rw [step, applyBare_bare, ih]
      rfl

/-- After every history, and whatever the text, the file and the host with its keyboard, no load
and no run breaks a contract: not on bare records, where everything is checked, and not on
commands. What is done with records, nothing being logged, is what is done with commands. -/
theorem no_check_fails {σ : Type} (path : Text) (d : Int) (uses : List Use) (host : Host σ)
    (keyboard : host.keyboard.isSome) (source : Source) (disk : Disk) (state : σ) :
    let fresh : BareScript :=
      { path := path, delay := d, commands := [], loaded := false, loading := false, pending := [] }
    let b := (BareInUse.after { script := fresh } uses).script
    let s := (InUse.after { script := { path := path, delay := d } } uses).script
    let t := (InUse.after { script := { path := path, delay := d } } (uses.map Use.muted)).script
    (∀ v, (b.tryLoadFrom source).2 ≠ some (.violation v) ∧
      (b.tryLoad disk).2 ≠ some (.violation v) ∧
      (b.run host disk state).2 ≠ some (.violation v)) ∧
    (∀ v, (s.tryLoadFrom source).2 ≠ some (.violation v) ∧
      (s.tryLoad disk).2 ≠ some (.violation v) ∧
      (s.run host disk state).2 ≠ some (.violation v)) ∧
    b.tryLoadFrom source = (t.tryLoadFrom source).map Script.bare id ∧
    b.tryLoad disk = (t.tryLoad disk).map Script.bare id ∧
    b.run host disk state = (t.run host.muted disk state).map (Prod.map Script.bare id) id := by
  intro fresh b s t
  have same : b = t.bare :=
    congrArg BareInUse.script (after_bare uses { script := { path := path, delay := d } })
  have muted : host.muted.keyboard.isSome := keyboard
  rw [same, Script.tryLoadFrom_bare, Script.tryLoad_bare, Script.run_bare]
  refine ⟨fun v => ⟨?_, ?_, ?_⟩, fun v => ⟨?_, ?_, ?_⟩, rfl, rfl, rfl⟩
  · exact t.tryLoadFrom_ne_violation source v
  · exact t.tryLoad_ne_violation disk v
  · exact Script.run_ne_violation muted t disk state v
  · exact s.tryLoadFrom_ne_violation source v
  · exact s.tryLoad_ne_violation disk v
  · exact Script.run_ne_violation keyboard s disk state v

/-- A text that starts with a repetition, spells a verb by its alias and sets the default delay in
a repetition, run after a load that failed; the second action is refused. -/
theorem no_check_fails_repetition :
    let text := utf8 "REPEAT 2\nDEFAULTDELAY 5\nREPEAT 2\nSTRING a\nREPEAT 1"
    let disk : Disk := fun _ => .ok (.file text)
    let guard : Guard Nat := fun n _ => (n + 1, if n = 1 then some [.failSafe] else none)
    let host := Rehearsal.host guard .recorded true false
    let start : Rehearsal Nat := { recorder := ⟨0, #[]⟩ }
    let uses : List Use := [.loadFrom ⟨utf8 "REPEAT 1\nREPEAT", none⟩, .setDelay 3]
    let fresh : BareScript :=
      { path := utf8 "s", delay := 0, commands := [], loaded := false, loading := false,
        pending := [] }
    let b := (BareInUse.after { script := fresh } uses).script
    host.keyboard.isSome ∧ (∀ v, (b.run host disk start).2 ≠ some (.violation v)) ∧
      (b.run host disk start).2 = some (.failure [.execution 3 (utf8 "STRING a"), .failSafe]) := by
  intro text disk guard host start uses fresh b
  have computed : (b.run host disk start).2 =
      some (.failure [.execution 3 (utf8 "STRING a"), .failSafe]) := by
    decide +kernel
  obtain ⟨checks, -⟩ := no_check_fails (utf8 "s") 0 uses host rfl ⟨text, none⟩ disk start
  exact ⟨rfl, fun v => (checks v).2.2, computed⟩

end KeyScript
