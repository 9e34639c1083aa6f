import KeyScript.Proofs.DelayRange
import KeyScript.Proofs.Reachable

/-!
The default delay over the life of a script. Loads, runs and commands that are
run by themselves keep it in range, for no line can ask for more. It starts as
it was given, and it can be set to anything that is not negative, so it is in
range at all times exactly when these two are.
-/

namespace KeyScript

/-- One thing that is done with a script, or with a command that was taken from it. -/
inductive Use : Type 1 where
  | load (disk : Disk)
  | loadFrom (source : Source)
  | run {σ : Type} (host : Host σ) (disk : Disk) (state : σ)
  | setDelay (ms : Int)
  | parse (raw : Text) (line : Int)
  | take
  | execute {σ : Type} (host : Host σ) (index : Nat) (state : σ)

/-- A script, and the commands that were taken from it so far. -/
structure InUse where
  script : Script
  held : List Command := []

/-- What a use leaves; one that is refused leaves everything as it was. -/
def Use.apply : Use → InUse → InUse
  | .load disk, u => { u with script := (u.script.tryLoad disk).1 }
  | .loadFrom source, u => { u with script := (u.script.tryLoadFrom source).1 }
  | .run host disk state, u => { u with script := (u.script.run host disk state).1.1 }
  | .setDelay ms, u =>
    match u.script.setDelay ms with
    | .ok script => { u with script := script }
    | .error _ => u
  | .parse raw line, u =>
    match u.script.parse raw line with
    | .ok c => { u with held := c :: u.held }
    | .error _ => u
  | .take, u => { u with held := u.script.commands ++ u.held }
  | .execute host index state, u =>
    match u.held[index]? with
    | some c => { u with script := (u.script.execute host c state).1.1 }
    | none => u

/-- What uses leave that follow one another. -/
def InUse.after (u : InUse) (uses : List Use) : InUse :=
  uses.foldl (fun u use => use.apply u) u

namespace Script.Reachable

theorem apply (use : Use) {u : InUse} (h : Reachable u.script u.held) :
    Reachable (use.apply u).script (use.apply u).held := by
  cases use with
  | load disk => exact h.load disk
  | loadFrom source => exact h.loadFrom source
  | run host disk state => exact h.run host disk state
  | setDelay ms =>
      simp only [Use.apply]
      split
      · exact h.setDelay ‹_›
      · exact h
  | parse raw line =>
      simp only [Use.apply]
      split
      · exact h.parse ‹_›
      · exact h
  | take => exact h.take
  | execute host index state =>
      simp only [Use.apply]
      split
      · exact h.execute host state (List.mem_of_getElem? ‹_›)
      · exact h

theorem after (uses : List Use) {u : InUse} (h : Reachable u.script u.held) :
    Reachable (u.after uses).script (u.after uses).held := by
  induction uses generalizing u with
  | nil => exact h
  | cons use rest ih => exact ih (h.apply use)

end Script.Reachable

namespace Script

theorem tryLoadFrom_bounded {s : Script} (h : ∀ c ∈ s.commands, c.Bounded) (source : Source) :
    ∀ c ∈ (s.tryLoadFrom source).1.commands, c.Bounded := by
  rw [tryLoadFrom_eq]
  cases found : source.commands with
  | ok cs => exact commands_bounded found
  | error fault => exact h

theorem tryLoad_bounded {s : Script} (h : ∀ c ∈ s.commands, c.Bounded) (disk : Disk) :
    ∀ c ∈ (s.tryLoad disk).1.commands, c.Bounded := by
  rw [tryLoad]
  cases sourceAt disk s.path with
  | ok source => exact tryLoadFrom_bounded h source
  | error fault => exact h

theorem runLoaded_commands {σ : Type} (host : Host σ) (s : Script) (state : σ) :
    (s.runLoaded host state).1.1.commands = s.commands := by
  obtain ⟨records, run⟩ := s.runLoaded_eq_performAll host state
  rw [run]

theorem run_bounded {σ : Type} (host : Host σ) {s : Script} (h : ∀ c ∈ s.commands, c.Bounded)
    (disk : Disk) (state : σ) : ∀ c ∈ (s.run host disk state).1.1.commands, c.Bounded := by
  obtain run | ⟨cs, found, run⟩ | ⟨fault, -, run⟩ := s.run_cases host disk state
  · rw [run, runLoaded_commands]
    exact h
  · rw [run, runLoaded_commands]
    exact fileCommands_bounded found
  · rw [run]
    exact tryLoad_bounded h disk

theorem recent_bounded {s : Script} (settled : Settled s) (h : ∀ c ∈ s.commands, c.Bounded) :
    ∀ c ∈ s.recent, c.Bounded := by
  rw [recent, settled.idle]
  intro c hc
  exact h c (List.mem_reverse.mp hc)

/-- No command that can be come by asks for a wait or a default delay out of range. -/
theorem Reachable.bounded {s : Script} {held : List Command} (h : Reachable s held) :
    (∀ c ∈ s.commands, c.Bounded) ∧ ∀ c ∈ held, c.Bounded := by
  induction h with
  | found disk found =>
      rw [find_eq_ok found]
      exact ⟨fun _ hc => absurd hc List.not_mem_nil, fun _ hc => absurd hc List.not_mem_nil⟩
  | load disk _ ih => exact ⟨tryLoad_bounded ih.1 disk, ih.2⟩
  | loadFrom source _ ih => exact ⟨tryLoadFrom_bounded ih.1 source, ih.2⟩
  | run host disk state _ ih => exact ⟨run_bounded host ih.1 disk state, ih.2⟩
  | setDelay _ set ih =>
      simp only [Script.setDelay] at set
      split at set
      · cases set
        exact ih
      · cases set
  | parse before parsed ih =>
      have new := parse_bounded (recent_bounded before.settled ih.1) parsed
      exact ⟨ih.1, List.forall_mem_cons.mpr ⟨new, ih.2⟩⟩
  | take _ ih => exact ⟨ih.1, List.forall_mem_append.mpr ih⟩
  | execute host state _ _ ih => exact ih

theorem setDelay_of_nonneg (s : Script) {ms : Int} (h : 0 ≤ ms) :
    s.setDelay ms = .ok { s with delay := ms } := by
  simp [setDelay, requireNonNegative, require, h]

theorem setDelay_of_neg (s : Script) {ms : Int} (h : ms < 0) : ∃ v, s.setDelay ms = .error v := by
  simp [setDelay, requireNonNegative, require, Int.not_le.mpr h]

theorem execute_inRange {σ : Type} (host : Host σ) {s : Script} {c : Command} (h : c.Bounded)
    (within : InRange s.delay) (state : σ) : InRange (s.execute host c state).1.1.delay := by
  simp only [execute, execute_eq_performAll]
  exact performAll_inRange host (h.moves false within) within

/-- One use keeps the default delay in range, unless it sets it to more. -/
theorem Reachable.inRange_apply {use : Use} {u : InUse} (h : Reachable u.script u.held)
    (asked : ∀ ms : Int, use = .setDelay ms → ms ≤ maxMillis) (within : InRange u.script.delay) :
    InRange (use.apply u).script.delay := by
  obtain ⟨commands, held⟩ := h.bounded
  cases use with
  | load disk =>
      have kept := (u.script.tryLoad_allOrNothing disk).delay
      exact kept ▸ within
  | loadFrom source =>
      have kept := (u.script.tryLoadFrom_allOrNothing source).delay
      exact kept ▸ within
  | run host disk state => exact run_inRange host commands within disk state
  | setDelay ms =>
      rcases Int.lt_or_le ms 0 with low | low
      · obtain ⟨v, refused⟩ := u.script.setDelay_of_neg low
        simpa only [Use.apply, refused] using within
      · simpa only [Use.apply, u.script.setDelay_of_nonneg low] using ⟨low, asked ms rfl⟩
  | parse raw line =>
      simp only [Use.apply]
      split
      · exact within
      · exact within
  | take => exact within
  | execute host index state =>
      simp only [Use.apply]
      split
      · rename_i c taken
        exact execute_inRange host (held c (List.mem_of_getElem? taken)) within state
      · exact within

theorem Reachable.inRange_after {uses : List Use} {u : InUse} (h : Reachable u.script u.held)
    (asked : ∀ ms : Int, .setDelay ms ∈ uses → ms ≤ maxMillis) (within : InRange u.script.delay) :
    InRange (u.after uses).script.delay := by
  induction uses generalizing u with
  | nil => exact within
  | cons use rest ih =>
      apply ih (h.apply use)
      · intro ms member
        exact asked ms (List.mem_cons_of_mem use member)
      · apply h.inRange_apply _ within
        rintro ms rfl
        exact asked ms List.mem_cons_self

end Script

/-- The default delay right after it was set. -/
theorem InUse.after_setDelay (u : InUse) (uses : List Use) {ms : Int} (h : 0 ≤ ms) :
    (u.after (uses ++ [.setDelay ms])).script.delay = ms := by
  simp only [after, List.foldl_append, List.foldl_cons, List.foldl_nil, Use.apply,
    Script.setDelay_of_nonneg _ h]

/-- Whatever is done with a script, its default delay is in range at all times, and the next wait
for it has its true length, exactly when it started in range and was never set to more. -/
theorem delay_stays_in_range {disk : Disk} {path : Text} {d : Int} {s : Script}
    (found : Script.find disk path d = .ok s) (uses : List Use) :
    (∀ k, let ms := (InUse.after { script := s } (uses.take k)).script.delay
      InRange ms ∧ 0 ≤ nanosOfMillis ms ∧ nanosOfMillis ms = ms * 1000000) ↔
      InRange d ∧ ∀ ms : Int, .setDelay ms ∈ uses → ms ≤ maxMillis := by
  have reachable : Script.Reachable s [] := .found disk found
  have start : s.delay = d := by rw [Script.find_eq_ok found]
  constructor
  · intro h
    refine ⟨start ▸ (h 0).1, ?_⟩
    intro ms member
    rcases Int.lt_or_le ms 0 with low | low
    · have := Int.natCast_nonneg maxMillis
      omega
    · obtain ⟨before, behind, rfl⟩ := List.append_of_mem member
      have upto : (before ++ .setDelay ms :: behind).take (before.length + 1) =
          before ++ [.setDelay ms] := by
        rw [List.take_append, List.take_of_length_le (Nat.le_succ _)]
        simp
      have set := (h (before.length + 1)).1
      rw [upto, InUse.after_setDelay _ _ low] at set
      exact set.2
  · rintro ⟨within, asked⟩ k
    have upto (ms : Int) (member : .setDelay ms ∈ uses.take k) : ms ≤ maxMillis :=
      asked ms (List.mem_of_mem_take member)
    have kept := Script.Reachable.inRange_after (u := { script := s }) reachable upto
      (start ▸ within)
    obtain ⟨same, nonneg, -⟩ := kept.nanos
    exact ⟨kept, nonneg, same⟩

/-- A command that is run by itself sets the longest default delay there is, and a negative one is
refused. -/
theorem delay_stays_in_range_longest :
    let host := Rehearsal.host (fun (_ : Unit) _ => ((), none)) .recorded true true
    let start : Rehearsal Unit := { recorder := ⟨(), #[]⟩ }
    let disk : Disk := fun _ => .ok (.file (utf8 "DEFAULT_DELAY 9223372036854"))
    let s : Script := { path := utf8 "s", delay := 3 }
    let uses : List Use := [.load disk, .take, .execute host 0 start, .setDelay (-1)]
    Script.find disk (utf8 "s") 3 = .ok s ∧
      (∀ k, InRange (InUse.after { script := s } (uses.take k)).script.delay) ∧
      (InUse.after { script := s } uses).script.delay = maxMillis := by
  intro host start disk s uses
  have found : Script.find disk (utf8 "s") 3 = .ok s := rfl
  have asked (ms : Int) (member : .setDelay ms ∈ uses) : ms ≤ maxMillis := by
    simp only [uses, List.mem_cons, reduceCtorEq, Use.setDelay.injEq, List.not_mem_nil, or_false,
      false_or] at member
    rw [member]
    decide
  have within := (delay_stays_in_range found uses).mpr ⟨by decide, asked⟩
  exact ⟨found, fun k => (within k).1, by decide +kernel⟩

/-- A negative default delay to start with, and one that is set to more than the longest: the next
wait is negative, and in the second case its length was cut to 64 bits. -/
theorem delay_out_of_range :
    let disk : Disk := fun _ => .ok (.file (utf8 "STRING a"))
    let early : Script := { path := utf8 "s", delay := -5 }
    let late : Script := { path := utf8 "s" }
    Script.find disk (utf8 "s") (-5) = .ok early ∧ Script.find disk (utf8 "s") 0 = .ok late ∧
      ¬ InRange early.delay ∧ nanosOfMillis early.delay = -5000000 ∧
      (InUse.after { script := late } [.setDelay 9223372036855]).script.delay = 9223372036855 ∧
      nanosOfMillis 9223372036855 = -9223372036854551616 :=
  ⟨rfl, rfl, by decide, by decide, rfl, by decide⟩

end KeyScript
