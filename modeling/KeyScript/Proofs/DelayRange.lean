import KeyScript.Proofs.AcceptedSettings
import KeyScript.Proofs.Agreement
import KeyScript.Proofs.BinaryForm
import KeyScript.Proofs.Expansion

/-!
Lengths of waits. A number of milliseconds comes into a run from the settings,
from the flags and from the lines of the script, and is in range wherever it
comes from. No move of a run takes the default delay out of range, so every wait
of a script that is run from the command line has its true length.
-/

namespace KeyScript

theorem inRange_natCast {n : Nat} (h : n ≤ maxMillis) : InRange n :=
  ⟨Int.natCast_nonneg n, Int.ofNat_le.mpr h⟩

/-- The length of a wait that is in range: it is not cut to 64 bits. -/
theorem InRange.nanos {ms : Int} (h : InRange ms) :
    nanosOfMillis ms = ms * 1000000 ∧ 0 ≤ nanosOfMillis ms ∧ IsInt64 (nanosOfMillis ms) := by
  obtain ⟨low, high⟩ := h
  rw [nanosOfMillis_eq low high]
  simp only [maxMillis] at high
  have fits : 0 ≤ ms * 1000000 ∧ IsInt64 (ms * 1000000) := by
    rw [IsInt64]
    omega
  exact ⟨rfl, fits⟩

namespace Command

/-- A command that asks for no wait and for no default delay out of range; a repetition asks for
what its target asks for. -/
def Bounded : Command → Prop
  | .plain _ _ deed => deed.millis ≤ maxMillis
  | .again _ _ _ target => target.Bounded

theorem bounded_nothing : nothing.Bounded :=
  Nat.zero_le _

end Command

theorem parse_bounded {raw : Text} {line : Int} {recent : List Command} {c : Command}
    (before : ∀ b ∈ recent, b.Bounded) (h : Command.parse raw line (some recent) = .ok c) :
    c.Bounded := by
  obtain ⟨deed, read, rfl⟩ | ⟨count, -, rfl⟩ := parse_cases h
  · exact read_millis_le read
  · cases found : recent.find? fun b => b.line < line with
    | none => exact Command.bounded_nothing
    | some b => exact before b (List.mem_of_find?_eq_some found)

theorem commands_bounded {source : Source} {cs : List Command} (h : source.commands = .ok cs) :
    ∀ c ∈ cs, c.Bounded :=
  readLines_forall parse_bounded (fun _ hc => absurd hc List.not_mem_nil)
    (Source.commands_eq_ok h)

theorem Script.fileCommands_bounded {s : Script} {disk : Disk} {cs : List Command}
    (h : s.fileCommands disk = .ok cs) : ∀ c ∈ cs, c.Bounded := by
  obtain ⟨source, -, commands⟩ := fileCommands_eq_ok h
  exact commands_bounded commands

/-- A move whose wait, or whose default delay, is in range. -/
def Move.Timely : Move → Prop
  | .wait _ ms | .setDelay ms => InRange ms
  | .note _ | .act _ _ => True

namespace Command.Bounded

theorem bodyMoves {c : Command} (h : c.Bounded) : ∀ x ∈ c.bodyMoves, x.Timely := by
  induction c with
  | plain raw line deed =>
      intro x hx
      cases deed with
      | comment text => cases hx
      | delay ms | setDefaultDelay ms =>
          rw [List.mem_singleton.mp hx]
          exact inRange_natCast h
      | typeText text | press keys =>
          rw [List.mem_singleton.mp hx]
          trivial
  | again raw line count target ih =>
      intro x hx
      rcases mem_bodyMoves_again hx with rfl | inside
      · trivial
      · exact ih h x inside

theorem moves {c : Command} (h : c.Bounded) (suppressed : Bool) {d : Int} (within : InRange d) :
    ∀ x ∈ c.moves suppressed d, x.Timely :=
  moves_forall (fun _ => trivial) suppressed within h.bodyMoves

theorem delayAfter {c : Command} (h : c.Bounded) {d : Int} (within : InRange d) :
    InRange (c.delayAfter d) := by
  induction c with
  | plain raw line deed =>
      cases deed with
      | setDefaultDelay ms => exact inRange_natCast h
      | comment text | delay ms | typeText text | press keys => exact within
  | again raw line count target ih =>
      simp only [Command.delayAfter]
      split
      · exact within
      · exact ih h

theorem runMoves {cs : List Command} (h : ∀ c ∈ cs, c.Bounded) {d : Int} (within : InRange d) :
    ∀ x ∈ KeyScript.runMoves d cs, x.Timely := by
  refine runMoves_forall (fun _ => trivial) (fun _ _ within => within) ?_ ?_ within
  · exact fun c hc => (h c hc).bodyMoves
  · exact fun c hc _ within => (h c hc).delayAfter within

end Command.Bounded

/-- A wait whose length is that of whole milliseconds in range. -/
def IsExact (length : Nanos) : Prop :=
  ∃ ms : Int, InRange ms ∧ length = ms * 1000000 ∧ IsInt64 length

theorem Move.Timely.waits {x : Move} (h : x.Timely) : x.Waits IsExact := by
  cases x with
  | wait c ms =>
      obtain ⟨same, -, fits⟩ := InRange.nanos h
      exact ⟨ms, h, same, fits⟩
  | note r | act c action | setDelay ms => trivial

section

variable {σ : Type} (host : Host σ)

theorem Move.Timely.perform {x : Move} (h : x.Timely) {m : Machine σ} (within : InRange m.delay) :
    InRange (x.perform host m).1.delay := by
  cases x with
  | setDelay ms => exact h
  | note r => exact within
  | wait c ms =>
      rw [Move.perform, waitFor_delay]
      exact within
  | act c action =>
      rw [Move.perform, performFor_delay]
      exact within

theorem performAll_inRange {xs : List Move} (h : ∀ x ∈ xs, x.Timely) {m : Machine σ}
    (within : InRange m.delay) : InRange (performAll host xs m).1.delay := by
  induction xs generalizing m with
  | nil => exact within
  | cons x xs ih =>
      obtain ⟨first, others⟩ := List.forall_mem_cons.mp h
      have next := first.perform host within
      simp only [performAll]
      rcases moved : x.perform host m with ⟨m', _ | fault⟩
      · rw [moved] at next
        exact ih others next
      · rw [moved] at next
        exact next

namespace Script

theorem runLoaded_inRange {s : Script} (bounded : ∀ c ∈ s.commands, c.Bounded)
    (within : InRange s.delay) (state : σ) : InRange (s.runLoaded host state).1.1.delay := by
  obtain ⟨records, run⟩ := s.runLoaded_eq_performAll host state
  rw [run]
  apply performAll_inRange host _ within
  exact List.forall_mem_cons.mpr ⟨trivial, Command.Bounded.runMoves bounded within⟩

theorem run_inRange {s : Script} (bounded : ∀ c ∈ s.commands, c.Bounded)
    (within : InRange s.delay) (disk : Disk) (state : σ) :
    InRange (s.run host disk state).1.1.delay := by
  obtain run | ⟨cs, found, run⟩ | ⟨fault, -, run⟩ := s.run_cases host disk state
  · rw [run]
    exact runLoaded_inRange host bounded within state
  · rw [run]
    have bounded := fileCommands_bounded found
    exact runLoaded_inRange host (s := { s.endLoad with commands := cs, loaded := true })
      bounded within _
  · rw [run]
    exact (s.tryLoad_allOrNothing disk).delay ▸ within

end Script

/-- The same host, with a list of the lengths that its clock was asked to wait for. -/
def Host.clocked : Host (σ × List Nanos) where
  sleep length s :=
    let answer := host.sleep length s.1
    ((answer.1, s.2 ++ [length]), answer.2)
  keyboard := host.keyboard.map fun perform action s =>
    let answer := perform action s.1
    ((answer.1, s.2), answer.2)
  note record s := (host.note record s.1, s.2)

/-- The same state, and waits of which each is in `ok`. -/
def Clocked (ok : Nanos → Prop) (state : σ) (s : σ × List Nanos) : Prop :=
  s.1 = state ∧ ∀ length ∈ s.2, ok length

theorem Host.agrees_clocked (ok : Nanos → Prop) :
    host.Agrees host.clocked ok (Clocked ok) where
  sleep := by
    rintro length state ⟨_, lengths⟩ allowed ⟨rfl, before⟩
    refine ⟨rfl, rfl, List.forall_mem_append.mpr ⟨before, ?_⟩⟩
    exact List.forall_mem_singleton.mpr allowed
  keyboard := by simp [clocked]
  act := by
    rintro action perform perform' state ⟨_, lengths⟩ left right ⟨rfl, before⟩
    simp only [clocked, left, Option.map_some, Option.some.injEq] at right
    subst right
    exact ⟨rfl, rfl, before⟩
  note := by
    rintro record state ⟨_, lengths⟩ ⟨rfl, before⟩
    exact ⟨rfl, before⟩

end

theorem Script.find_eq_ok {disk : Disk} {path : Text} {d : Int} {s : Script}
    (h : Script.find disk path d = .ok s) : s = { path := path, delay := d } := by
  simp only [Script.find] at h
  split at h <;> cases h
  all_goals rfl

theorem CommandLine.findScript_eq_ok {w : Surroundings} {settings : Settings} {path : Text}
    {script : Script} (h : findScript w settings path = .ok script) :
    script = { path := path, delay := settings.defaultDelay } := by
  simp only [findScript] at h
  split at h
  · rename_i found
    cases h
    exact Script.find_eq_ok found
  · cases h

/-- Under all settings and flags that are accepted, and whatever the script and the host, the
clock is asked only for waits of their true length, and the default delay is in range from the
start and after each move. -/
theorem command_line_waits_exact {σ : Type} {w : Surroundings} {o : Options} {settings : Settings}
    {path : Text} {script : Script} (accepted : o.settings w = .ok settings)
    (found : CommandLine.findScript w settings path = .ok script)
    (host : Host σ) (disk : Disk) (state : σ) :
    let run := script.run host disk state
    let clocked := script.run host.clocked disk (state, [])
    (clocked.1.1 = run.1.1 ∧ clocked.1.2.1 = run.1.2 ∧ clocked.2 = run.2) ∧
    (∀ length ∈ clocked.1.2.2, IsExact length) ∧
    InRange script.delay ∧ InRange run.1.1.delay ∧
    ∀ cs, script.fileCommands disk = .ok cs →
      (∀ c ms, .wait c ms ∈ runMoves script.delay cs →
        InRange ms ∧ nanosOfMillis ms = ms * 1000000) ∧
      ∀ k, InRange (performAll host ((runMoves script.delay cs).take k)
        ⟨script.delay, state⟩).1.delay := by
  have fresh := CommandLine.findScript_eq_ok found
  have unloaded : script.loaded = false := by rw [fresh]
  have empty : script.commands = [] := by rw [fresh]
  have start : InRange script.delay := by
    rw [fresh]
    exact Options.settings_inRange accepted
  have timely (cs : List Command) (file : script.fileCommands disk = .ok cs) :
      ∀ x ∈ runMoves script.delay cs, x.Timely :=
    Command.Bounded.runMoves (Script.fileCommands_bounded file) start
  have initial : Clocked IsExact state (state, []) :=
    ⟨rfl, fun _ h => absurd h List.not_mem_nil⟩
  obtain ⟨left, fault, same, lengths⟩ := (host.agrees_clocked IsExact).run unloaded disk
    (fun cs file x hx => (timely cs file x hx).waits) initial
  refine ⟨⟨left, same, fault⟩, lengths, start, ?_, fun cs file => ⟨?_, ?_⟩⟩
  · apply Script.run_inRange host _ start
    exact empty ▸ fun _ h => absurd h List.not_mem_nil
  · intro c ms asked
    have within : InRange ms := timely cs file _ asked
    exact ⟨within, within.nanos.1⟩
  · intro k
    apply performAll_inRange host _ start
    exact fun x hx => timely cs file x (List.mem_of_mem_take hx)

/-- The longest default delay there is, from a settings file, and the longest wait, repeated. -/
theorem command_line_waits_exact_longest :
    let disk : Disk := fun path =>
      if path = utf8 "c" then .ok (.file (utf8 "default_delay: 9223372036854\n"))
      else .ok (.file (utf8 "DELAY 9223372036854\nREPEAT 2\n"))
    let w : Surroundings := { disk := disk, home := [] }
    let o : Options := { config := utf8 "c" }
    let settings : Settings := { defaultDelay := maxMillis }
    let script : Script := { path := utf8 "s", delay := maxMillis }
    let host := Rehearsal.host (fun (_ : Unit) _ => ((), none)) .recorded true true
    let start : Rehearsal Unit := { recorder := ⟨(), #[]⟩ }
    o.settings w = .ok settings ∧ CommandLine.findScript w settings (utf8 "s") = .ok script ∧
      (script.run host.clocked disk (start, [])).1.2.2 = List.replicate 5 9223372036854000000 ∧
      ∀ length ∈ (script.run host.clocked disk (start, [])).1.2.2, IsExact length := by
  intro disk w o settings script host start
  have computed : (o.settings w).toOption = some settings ∧
      (script.run host.clocked disk (start, [])).1.2.2 =
        List.replicate 5 9223372036854000000 := by
    decide +kernel
  have accepted : o.settings w = .ok settings := by
    cases read : o.settings w with
    | ok s =>
        rw [read] at computed
        exact congrArg Except.ok (Option.some.inj computed.1)
    | error f =>
        rw [read] at computed
        cases computed.1
  have found : CommandLine.findScript w settings (utf8 "s") = .ok script := rfl
  obtain ⟨-, lengths, -⟩ := command_line_waits_exact accepted found host disk start
  exact ⟨accepted, found, computed.2, lengths⟩

end KeyScript
