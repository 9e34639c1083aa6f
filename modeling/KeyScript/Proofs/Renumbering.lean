import Mathlib.Data.List.InsertIdx
import KeyScript.Proofs.Difference
import KeyScript.Proofs.Lines

/-!
Blank lines only renumber. A line that is put into a text moves the lines behind
it by one. The order of lines stays, and with it what a repetition finds before
it, so a load gives the same commands or the same fault under new numbers. No
number is seen by a host, so the commands do the same.
-/

namespace KeyScript

/-- The new number of a line when one more was put in as number `p`. -/
def renumber (p : Nat) (line : Int) : Int :=
  if p ≤ line then line + 1 else line

theorem renumber_of_lt {p : Nat} {line : Int} (h : line < p) : renumber p line = line :=
  if_neg (Int.not_le.mpr h)

theorem renumber_of_le {p : Nat} {line : Int} (h : p ≤ line) : renumber p line = line + 1 :=
  if_pos h

theorem renumber_noLine (p : Nat) : renumber p noLine = noLine := by
  apply renumber_of_lt
  simp only [noLine]
  omega

theorem renumber_lt_renumber (p : Nat) (m n : Int) : renumber p m < renumber p n ↔ m < n := by
  simp only [renumber]
  split <;> split <;> omega

theorem renumber_nonneg (p : Nat) {line : Int} (h : 0 ≤ line) : 0 ≤ renumber p line := by
  simp only [renumber]
  split <;> omega

/-- The command with new line numbers, down to the end of its chain of repetitions. -/
def Command.renumber (p : Nat) : Command → Command
  | .plain raw line deed => .plain raw (KeyScript.renumber p line) deed
  | .again raw line count target =>
    .again raw (KeyScript.renumber p line) count (target.renumber p)

/-- The step with new line numbers, its own and that of what it repeats. -/
def Step.renumber (p : Nat) (s : Step) : Step :=
  { s with line := KeyScript.renumber p s.line, target := KeyScript.renumber p s.target }

def ParseError.renumber (p : Nat) (e : ParseError) : ParseError :=
  { e with line := KeyScript.renumber p e.line }

/-- The fault with the new number of the line that is no statement, if it is about one. -/
def LoadFault.renumber (p : Nat) : LoadFault → LoadFault
  | .parse e => .parse (e.renumber p)
  | fault => fault

/-- What is read of lines, under new numbers. -/
def renumbered (p : Nat) : Except LoadFault (List Command) → Except LoadFault (List Command)
  | .ok cs => .ok (cs.map (Command.renumber p))
  | .error fault => .error (fault.renumber p)

namespace Command

@[simp] theorem line_renumber (p : Nat) (c : Command) :
    (c.renumber p).line = KeyScript.renumber p c.line := by
  cases c <;> rfl

theorem nothing_renumber (p : Nat) : nothing.renumber p = nothing := by
  rw [nothing, renumber, renumber_noLine]

theorem ofCommand_renumber (p : Nat) (c : Command) :
    Step.ofCommand (c.renumber p) = (Step.ofCommand c).renumber p := by
  cases c with
  | plain raw line deed =>
      have none : KeyScript.renumber p noLine = noLine := renumber_noLine p
      simp only [Step.ofCommand, Step.renumber, renumber, target?, Option.map_none,
        Option.getD_none, none]
      rfl
  | again raw line count target =>
      simp only [Step.ofCommand, Step.renumber, renumber, target?, Option.map_some,
        Option.getD_some, line_renumber]
      rfl

/-- The nearest command before a line stays the nearest, or there is none as before. -/
theorem nearest_renumber (p : Nat) (recent : List Command) (line : Int) :
    ((recent.map (renumber p)).find? fun c => c.line < KeyScript.renumber p line).getD nothing =
      ((recent.find? fun c => c.line < line).getD nothing).renumber p := by
  have same : ((fun c : Command => decide (c.line < KeyScript.renumber p line)) ∘ renumber p) =
      fun c : Command => decide (c.line < line) := by
    funext c
    simp [renumber_lt_renumber]
  rw [List.find?_map, same]
  cases recent.find? fun c => c.line < line with
  | none => exact (nothing_renumber p).symm
  | some c => rfl

end Command

/-- A line that is read under its new number gives the command or the error that it gave, under new
numbers. -/
theorem parse_renumber (p : Nat) (raw : Text) {line : Int} (h : 0 ≤ line)
    (recent : List Command) :
    (∃ c, Command.parse raw line (some recent) = .ok c ∧
      Command.parse raw (renumber p line) (some (recent.map (Command.renumber p))) =
        .ok (c.renumber p)) ∨
    ∃ e, Command.parse raw line (some recent) = .error (.rejected e) ∧
      Command.parse raw (renumber p line) (some (recent.map (Command.renumber p))) =
        .error (.rejected (e.renumber p)) := by
  simp only [Command.parse, Option.isSome_some, Option.getD_some, previous_of_nonneg _ h,
    previous_of_nonneg _ (renumber_nonneg p h), Command.nearest_renumber]
  split
  · exact .inr ⟨_, rfl, rfl⟩
  · cases Statement.read true raw.trim with
    | error problem => exact .inr ⟨_, rfl, rfl⟩
    | ok statement =>
        cases statement with
        | plain deed => exact .inl ⟨_, rfl, rfl⟩
        | again count => exact .inl ⟨_, rfl, rfl⟩

/-- One line more, read as `m` where it was `n`. -/
theorem readLines_cons_renumber {p m n : Nat} (place : (m : Int) = renumber p n)
    {rest rest' : List Text}
    (later : ∀ recent, readLines (m + 1) (recent.map (Command.renumber p)) rest' =
      renumbered p (readLines (n + 1) recent rest))
    (line : Text) (recent : List Command) :
    readLines m (recent.map (Command.renumber p)) (line :: rest') =
      renumbered p (readLines n recent (line :: rest)) := by
  rw [readLines, readLines]
  split
  · exact later recent
  · rw [place]
    obtain ⟨c, parsed, parsed'⟩ | ⟨e, refused, refused'⟩ :=
      parse_renumber p line.trim (Int.natCast_nonneg n) recent
    · rw [parsed, parsed']
      exact later (c :: recent)
    · rw [refused, refused']
      rfl

theorem readLines_behind {p n : Nat} (h : p ≤ n) (lines : List Text) (recent : List Command) :
    readLines (n + 1) (recent.map (Command.renumber p)) lines =
      renumbered p (readLines n recent lines) := by
  induction lines generalizing n recent with
  | nil => rw [readLines, readLines, renumbered, List.map_reverse]
  | cons line rest ih =>
      have place : ((n + 1 : Nat) : Int) = renumber p n :=
        (renumber_of_le (Int.ofNat_le.mpr h)).symm
      exact readLines_cons_renumber place (ih (Nat.le_succ_of_le h)) line recent

/-- Lines in front of a blank one that is put in keep their numbers, and those behind it get the
next ones. -/
theorem readLines_insertIdx {blank : Text} (empty : blank.trim = []) (lines : List Text)
    (n k : Nat) (recent : List Command) :
    readLines n (recent.map (Command.renumber (n + k))) (lines.insertIdx k blank) =
      renumbered (n + k) (readLines n recent lines) := by
  induction k generalizing lines n recent with
  | zero =>
      rw [List.insertIdx_zero, readLines, empty]
      exact readLines_behind (Nat.le_refl n) lines recent
  | succ k ih =>
      cases lines with
      | nil => rw [List.insertIdx_succ_nil, readLines, readLines, renumbered, List.map_reverse]
      | cons line rest =>
          have place : (n : Int) = renumber (n + (k + 1)) n := by
            rw [renumber_of_lt]
            omega
          rw [List.insertIdx_succ_cons]
          refine readLines_cons_renumber place (fun recent => ?_) line recent
          have later := ih rest (n + 1) recent
          rwa [Nat.add_assoc, Nat.add_comm 1 k] at later

section

variable {α : Type} {q : α → Bool} {a : α}

theorem takeWhile_insertIdx (h : q a = true) (l : List α) (i : Nat) :
    (l.insertIdx i a).takeWhile q = (l.takeWhile q).insertIdx i a := by
  induction i generalizing l with
  | zero => rw [List.insertIdx_zero, List.takeWhile_cons_of_pos h, List.insertIdx_zero]
  | succ i ih =>
      cases l with
      | nil => rfl
      | cons b l =>
          rw [List.insertIdx_succ_cons]
          by_cases hb : q b = true
          · rw [List.takeWhile_cons_of_pos hb, List.takeWhile_cons_of_pos hb,
              List.insertIdx_succ_cons, ih]
          · rw [List.takeWhile_cons_of_neg hb, List.takeWhile_cons_of_neg hb,
              List.insertIdx_succ_nil]

theorem any_insertIdx (h : q a = false) (l : List α) (i : Nat) :
    (l.insertIdx i a).any q = l.any q := by
  induction i generalizing l with
  | zero => rw [List.insertIdx_zero, List.any_cons, h, Bool.false_or]
  | succ i ih =>
      cases l with
      | nil => rfl
      | cons b l => rw [List.insertIdx_succ_cons, List.any_cons, List.any_cons, ih]

end

/-- What is wrong behind the lines of a source is not about one of them. -/
theorem fault_renumber {source : Source} {fault : LoadFault} (h : source.fault = some fault)
    (p : Nat) : fault.renumber p = fault := by
  simp only [Source.fault] at h
  split at h
  · cases h
    rfl
  · obtain ⟨cause, -, rfl⟩ := Option.map_eq_some_iff.mp h
    rfl

section

variable {t t' blank : Text} {p : Nat}
  (inserted : physicalLines t' = (physicalLines t).insertIdx p blank)
  (short : blank.length < lineLimit) (broken : Option Failure)
include inserted short

theorem lines_insertIdx :
    Source.lines ⟨t', broken⟩ = (Source.lines ⟨t, broken⟩).insertIdx p (dropReturn blank) := by
  let fits (line : Text) : Bool := line.length < lineLimit
  have short : fits blank = true := decide_eq_true short
  change ((physicalLines t').takeWhile fits).map dropReturn =
    (((physicalLines t).takeWhile fits).map dropReturn).insertIdx p (dropReturn blank)
  rw [inserted, takeWhile_insertIdx short, List.map_insertIdx]

theorem fault_insertIdx : Source.fault ⟨t', broken⟩ = Source.fault ⟨t, broken⟩ := by
  let tooLong (line : Text) : Bool := lineLimit ≤ line.length
  have short : tooLong blank = false := decide_eq_false (Nat.not_le.mpr short)
  have same : hasLineOver lineLimit t' = hasLineOver lineLimit t := by
    change (physicalLines t').any tooLong = (physicalLines t).any tooLong
    rw [inserted, any_insertIdx short]
  rw [Source.fault, Source.fault, same]

/-- A text with one more line that is blank holds the same commands, or has the same fault, under
new numbers. -/
theorem commands_insertIdx (empty : blank.trim = []) :
    Source.commands ⟨t', broken⟩ = renumbered p (Source.commands ⟨t, broken⟩) := by
  have still : (dropReturn blank).trim = [] := (Text.trim_dropReturn blank).trans empty
  have read := readLines_insertIdx still (Source.lines ⟨t, broken⟩) 0 p []
  rw [Nat.zero_add, List.map_nil, ← lines_insertIdx inserted short] at read
  rw [Source.commands, Source.commands, read, fault_insertIdx inserted short]
  cases readLines 0 [] (Source.lines ⟨t, broken⟩) with
  | error fault => rfl
  | ok cs =>
      cases behind : Source.fault ⟨t, broken⟩ with
      | none => rfl
      | some fault => simp only [renumbered, fault_renumber behind]

end

/-- Moves that ask the same of a host, for whatever command and with whatever in the log. -/
inductive Move.Alike : Move → Move → Prop
  | note (r r' : Record) : Alike (.note r) (.note r')
  | wait (c c' : Command) (ms : Int) : Alike (.wait c ms) (.wait c' ms)
  | act (c c' : Command) (action : Action) : Alike (.act c action) (.act c' action)
  | setDelay (ms : Int) : Alike (.setDelay ms) (.setDelay ms)

section

variable {σ : Type} {host : Host σ}

theorem Move.Alike.perform (unlogged : host.Unlogged) {x y : Move} (h : x.Alike y)
    (m : Machine σ) : KeyScript.Alike (some (x.perform host m)) (some (y.perform host m)) := by
  cases h with
  | note r r' =>
      simp only [Move.perform, unlogged.note]
      exact .finished m
  | setDelay ms => exact .finished _
  | wait c c' ms =>
      simp only [Move.perform, waitFor]
      rcases host.sleep (nanosOfMillis ms) m.host with ⟨state, _ | f⟩
      · exact .finished _
      · exact .stopped _ _ _
  | act c c' action =>
      simp only [Move.perform, performFor]
      cases host.keyboard with
      | none => exact .stopped _ _ _
      | some perform =>
          simp only
          rcases perform action m.host with ⟨state, _ | f⟩
          · exact .finished _
          · exact .stopped _ _ _

theorem Move.Alike.performAll (unlogged : host.Unlogged) {xs ys : List Move}
    (h : List.Forall₂ Move.Alike xs ys) (m : Machine σ) :
    KeyScript.Alike (some (KeyScript.performAll host xs m))
      (some (KeyScript.performAll host ys m)) := by
  induction h generalizing m with
  | nil => exact .finished m
  | @cons x y xs ys first _ ih =>
      have one := first.perform unlogged m
      rw [KeyScript.performAll, KeyScript.performAll]
      generalize x.perform host m = out at one ⊢
      generalize y.perform host m = out' at one ⊢
      cases one with
      | finished m => exact ih m
      | stopped m f f' => exact .stopped m f f'

end

namespace Command

theorem delayAfter_renumber (p : Nat) (d : Int) (c : Command) :
    (c.renumber p).delayAfter d = c.delayAfter d := by
  induction c with
  | plain raw line deed => cases deed <;> rfl
  | again raw line count target ih => rw [renumber, delayAfter, delayAfter, ih]

theorem frontMoves_renumber (p : Nat) (d : Int) (c : Command) :
    List.Forall₂ Move.Alike (c.frontMoves false d) ((c.renumber p).frontMoves false d) := by
  have skips : (c.renumber p).skipsDelay = c.skipsDelay := by cases c <;> rfl
  simp only [frontMoves, skips]
  split
  · exact .cons (.note _ _) .nil
  · exact .cons (.note _ _) (.cons (.note _ _) (.cons (.wait _ _ _) .nil))

theorem bodyMoves_renumber (p : Nat) (c : Command) :
    List.Forall₂ Move.Alike c.bodyMoves (c.renumber p).bodyMoves := by
  induction c with
  | plain raw line deed =>
      cases deed with
      | comment text => exact .nil
      | delay ms => exact .cons (.wait _ _ _) .nil
      | setDefaultDelay ms => exact .cons (.setDelay _) .nil
      | typeText text | press keys => exact .cons (.act _ _ _) .nil
  | again raw line count target ih =>
      rw [renumber, bodyMoves, bodyMoves]
      induction count with
      | zero => exact .nil
      | succ count rounds =>
          rw [List.replicate_succ, List.flatten_cons, List.replicate_succ, List.flatten_cons]
          exact List.rel_append (.cons (.note _ _) ih) rounds

end Command

theorem runMoves_renumber (p : Nat) (d : Int) (cs : List Command) :
    List.Forall₂ Move.Alike (runMoves d cs) (runMoves d (cs.map (Command.renumber p))) := by
  induction cs generalizing d with
  | nil => exact .nil
  | cons c rest ih =>
      rw [List.map_cons, runMoves, runMoves, Command.delayAfter_renumber]
      have first := List.rel_append (c.frontMoves_renumber p d) (c.bodyMoves_renumber p)
      exact .cons (.note _ _) (List.rel_append first (ih (c.delayAfter d)))

/-- Loaded scripts that differ by line numbers do the same. -/
theorem behaviour_renumber {μ : Type} (guard : Guard μ) (noted : Bool) (disk : Disk)
    (r : Rehearsal μ) (p : Nat) {s s' : Script} (loaded : s.loaded = true)
    (loaded' : s'.loaded = true) (delay : s'.delay = s.delay)
    (commands : s'.commands = s.commands.map (Command.renumber p)) :
    (s.behaviour guard noted disk r).Alike (s'.behaviour guard noted disk r) := by
  have alike := Move.Alike.performAll (Rehearsal.unlogged_host guard)
    (runMoves_renumber p s.delay s.commands) ⟨s.delay, r⟩
  rw [Script.behaviour_eq noted disk r loaded, Script.behaviour_eq noted disk r loaded', delay,
    commands]
  exact alike.behaviour rfl rfl

/-- A blank line that is not too long and is put into a text as line `p` only renumbers. The text is
loaded exactly if it was before. Then every step is the same but for its line and the line of what
it repeats, which go up by one from `p` on, and the script does the same whatever the guard
refuses, whenever the run is called off and whatever the default delay is at the start. Otherwise
the fault is the same but for the line of an error, which goes up likewise. -/
theorem blank_line_renumbers {t t' blank : Text} {p : Nat}
    (inserted : physicalLines t' = (physicalLines t).insertIdx p blank)
    (empty : blank.trim = []) (short : blank.length < lineLimit) (broken : Option Failure)
    (s s' : Script) :
    (∃ loaded loaded' : Script, s.loadFrom ⟨t, broken⟩ = .ok loaded ∧
      s'.loadFrom ⟨t', broken⟩ = .ok loaded' ∧
      (∀ name name', (Plan.ofCommands name' loaded'.commands).steps =
        (Plan.ofCommands name loaded.commands).steps.map (Step.renumber p)) ∧
      ∀ (μ : Type) (guard : Guard μ) (noted : Bool) (disk : Disk) (r : Rehearsal μ) (d : Int),
        (({ loaded with delay := d } : Script).behaviour guard noted disk r).Alike
          (({ loaded' with delay := d } : Script).behaviour guard noted disk r)) ∨
    ∃ fault, s.loadFrom ⟨t, broken⟩ = .error fault ∧
      s'.loadFrom ⟨t', broken⟩ = .error (fault.renumber p) := by
  have same := commands_insertIdx inserted short broken empty
  cases commands : Source.commands ⟨t, broken⟩ with
  | ok cs =>
      rw [commands] at same
      let loaded : Script := { s.endLoad with commands := cs, loaded := true }
      let loaded' : Script :=
        { s'.endLoad with commands := cs.map (Command.renumber p), loaded := true }
      have accepted : s.loadFrom ⟨t, broken⟩ = .ok loaded :=
        Script.loadFrom_eq_ok_iff.mpr ⟨cs, commands, rfl⟩
      have accepted' : s'.loadFrom ⟨t', broken⟩ = .ok loaded' :=
        Script.loadFrom_eq_ok_iff.mpr ⟨cs.map (Command.renumber p), same, rfl⟩
      refine .inl ⟨loaded, loaded', accepted, accepted', ?_, ?_⟩
      · intro name name'
        simp only [loaded, loaded', Plan.ofCommands, List.map_map]
        exact List.map_congr_left fun c _ => c.ofCommand_renumber p
      · exact fun μ guard noted disk r d => behaviour_renumber guard noted disk r p rfl rfl rfl rfl
  | error fault =>
      rw [commands] at same
      exact .inr ⟨fault, Script.loadFrom_eq_error_iff.mpr commands,
        Script.loadFrom_eq_error_iff.mpr same⟩

/-- White space of two bytes and a carriage return between a command and its repetition, which
still finds it, and in front of a text that is refused. -/
theorem blank_line_renumbers_repetition :
    let blank := utf8 "\u00A0\t\x0d"
    let t := utf8 "REPEAT 9\nSTRING a\nREPEAT 2\n\nREPEAT 3"
    let t' := utf8 "REPEAT 9\nSTRING a\n\u00A0\t\x0d\nREPEAT 2\n\nREPEAT 3"
    let bad := utf8 "STRING a\nDELAY x\n"
    let bad' := utf8 "\u00A0\t\x0d\nSTRING a\nDELAY x\n"
    let s : Script := { path := utf8 "a" }
    physicalLines t' = (physicalLines t).insertIdx 2 blank ∧
      physicalLines bad' = (physicalLines bad).insertIdx 0 blank ∧ blank.trim = [] ∧
      (∃ loaded : Script, s.loadFrom ⟨t', none⟩ = .ok loaded ∧
        (Plan.ofCommands [] loaded.commands).steps.map (fun s => (s.line, s.target)) =
          [(0, -1), (1, -1), (3, 1), (5, 3)]) ∧
      s.loadFrom ⟨bad', none⟩ = .error (.parse ⟨2, utf8 "DELAY x",
        .badMillis (utf8 "DELAY") (.number .syntaxFault (utf8 "x"))⟩) := by
  intro blank t t' bad bad' s
  have computed : physicalLines t' = (physicalLines t).insertIdx 2 blank ∧
      physicalLines bad' = (physicalLines bad).insertIdx 0 blank ∧ blank.trim = [] ∧
      blank.length < lineLimit ∧ (s.tryLoadFrom ⟨t, none⟩).2 = none ∧
      (Plan.ofCommands [] (s.tryLoadFrom ⟨t, none⟩).1.commands).steps.map
        (fun s => ((s.renumber 2).line, (s.renumber 2).target)) =
          [(0, -1), (1, -1), (3, 1), (5, 3)] ∧
      (s.tryLoadFrom ⟨bad, none⟩).2 = some (.parse ⟨1, utf8 "DELAY x",
        .badMillis (utf8 "DELAY") (.number .syntaxFault (utf8 "x"))⟩) := by
    decide +kernel
  obtain ⟨inserted, inserted', empty, short, ok, steps, refused⟩ := computed
  refine ⟨inserted, inserted', empty, ?_, ?_⟩
  · have load := Script.loadFrom_of_none ok
    cases blank_line_renumbers inserted empty short none s s with
    | inl good =>
        obtain ⟨loaded, loaded', accepted, accepted', same, -⟩ := good
        rw [load] at accepted
        cases accepted
        refine ⟨loaded', accepted', ?_⟩
        rw [same [] [], List.map_map]
        exact steps
    | inr failed =>
        obtain ⟨fault, failed, -⟩ := failed
        rw [load] at failed
        cases failed
  · have load := Script.loadFrom_of_some refused
    cases blank_line_renumbers inserted' empty short none s s with
    | inl good =>
        obtain ⟨loaded, loaded', accepted, -⟩ := good
        rw [load] at accepted
        cases accepted
    | inr failed =>
        obtain ⟨fault, failed, failed'⟩ := failed
        rw [load] at failed
        cases failed
        exact failed'

end KeyScript
