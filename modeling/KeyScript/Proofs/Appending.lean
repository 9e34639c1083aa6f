import KeyScript.Proofs.Lines
import KeyScript.Proofs.PlanRun
import KeyScript.Proofs.Words

/-!
What is appended to a text disturbs nothing before it. Lines are read from the
front, and neither a command nor a fault depends on a line behind it. A run takes
the commands in the same order, so it begins with the run of the text alone.
-/

namespace KeyScript
namespace Text

/-- A text that ends between two lines: what is appended to it begins a new one. -/
def EndsLine (t : Text) : Prop :=
  t = [] ∨ t.getLast? = some newline

instance (t : Text) : Decidable t.EndsLine :=
  inferInstanceAs (Decidable (_ ∨ _))

theorem physicalLines_cut (s t : Text) :
    physicalLines (s ++ newline :: t) = s.split newline ++ physicalLines t := by
  have filled : t.split newline ≠ [] := splitAt_ne_nil _ [] t
  have last : (s.split newline ++ t.split newline).getLast? = (t.split newline).getLast? := by
    rw [List.getLast?_append, List.getLast?_eq_some_getLast filled]
    rfl
  rw [physicalLines, physicalLines, split_cut, last]
  split
  · rw [List.dropLast_append_of_ne_nil filled]
  · rfl

theorem EndsLine.physicalLines_append {a : Text} (h : a.EndsLine) (b : Text) :
    physicalLines (a ++ b) = physicalLines a ++ physicalLines b := by
  cases h with
  | inl none =>
      rw [none]
      rfl
  | inr last =>
      obtain ⟨front, rfl⟩ := List.getLast?_eq_some_iff.mp last
      have alone : physicalLines (front ++ [newline]) = split newline front :=
        (physicalLines_cut front []).trans (List.append_nil _)
      rw [alone, List.append_assoc, List.singleton_append, physicalLines_cut]

theorem EndsLine.hasLineOver_append {a : Text} (h : a.EndsLine) (limit : Nat) (b : Text) :
    hasLineOver limit (a ++ b) = (hasLineOver limit a || hasLineOver limit b) := by
  rw [hasLineOver, h.physicalLines_append, List.any_append]
  rfl

end Text

theorem readLines_append (n : Nat) (recent : List Command) (lines more : List Text) :
    readLines n recent (lines ++ more) =
      match readLines n recent lines with
      | .ok cs => readLines (n + lines.length) cs.reverse more
      | .error fault => .error fault := by
  induction lines generalizing n recent with
  | nil => simp only [List.nil_append, readLines, List.reverse_reverse, List.length_nil,
      Nat.add_zero]
  | cons line rest ih =>
      have next : n + (line :: rest).length = n + 1 + rest.length := by
        rw [List.length_cons]
        omega
      rw [List.cons_append, readLines, readLines, next]
      split
      · exact ih (n + 1) recent
      · cases Command.parse line.trim n (some recent) with
        | ok c => exact ih (n + 1) (c :: recent)
        | error fault => rfl

/-- Commands that were read stay in front of those that are read later. -/
theorem readLines_prefix {n : Nat} {recent : List Command} {lines : List Text} {cs : List Command}
    (h : readLines n recent lines = .ok cs) : recent.reverse <+: cs := by
  induction lines generalizing n recent with
  | nil =>
      cases h
      exact List.prefix_refl _
  | cons line rest ih =>
      obtain ⟨-, h⟩ | ⟨c, -, -, h⟩ := readLines_cons h
      · exact ih h
      · have longer := ih h
        rw [List.reverse_cons] at longer
        exact (List.prefix_append _ _).trans longer

section

variable {a : Text} (ends : a.EndsLine) (b : Text) (broken : Option Failure)
include ends

theorem lines_append (short : hasLineOver lineLimit a = false) :
    Source.lines ⟨a ++ b, broken⟩ = Source.lines ⟨a, none⟩ ++ Source.lines ⟨b, none⟩ := by
  have all : (physicalLines a).takeWhile (fun line => line.length < lineLimit) =
      physicalLines a := by
    rw [List.takeWhile_eq_self_iff]
    intro line hl
    have fits := List.any_eq_false.mp short line hl
    simpa using fits
  simp only [Source.lines, linesWithin]
  rw [ends.physicalLines_append, List.takeWhile_append, all, if_pos rfl, List.map_append]

/-- Nothing is looked at behind a line that is too long. -/
theorem lines_append_of_long (long : hasLineOver lineLimit a = true) :
    Source.lines ⟨a ++ b, broken⟩ = Source.lines ⟨a, none⟩ := by
  have cut : ((physicalLines a).takeWhile fun line => line.length < lineLimit).length ≠
      (physicalLines a).length := by
    intro whole
    have all := (List.takeWhile_prefix _).eq_of_length whole
    obtain ⟨line, hl, past⟩ := List.any_eq_true.mp long
    have fits := List.takeWhile_eq_self_iff.mp all line hl
    simp only [decide_eq_true_eq] at fits past
    omega
  simp only [Source.lines, linesWithin]
  rw [ends.physicalLines_append, List.takeWhile_append, if_neg cut]

theorem commands_append_of_error {fault : LoadFault}
    (h : Source.commands ⟨a, none⟩ = .error fault) :
    Source.commands ⟨a ++ b, broken⟩ = .error fault := by
  rw [Source.commands] at h ⊢
  cases long : hasLineOver lineLimit a with
  | true =>
      have late (t : Text) (cause : Option Failure) (past : hasLineOver lineLimit t = true) :
          Source.fault ⟨t, cause⟩ = some .lineTooLong := by
        rw [Source.fault, if_pos past]
      have past : hasLineOver lineLimit (a ++ b) = true := by
        rw [ends.hasLineOver_append, long, Bool.true_or]
      rw [lines_append_of_long ends b broken long, late _ _ past]
      rwa [late _ _ long] at h
  | false =>
      have whole : Source.fault ⟨a, none⟩ = none := by simp [Source.fault, long]
      rw [lines_append ends b broken long, readLines_append]
      cases read : readLines 0 [] (Source.lines ⟨a, none⟩) with
      | error early =>
          rw [read] at h
          exact h
      | ok cs =>
          rw [read, whole] at h
          cases h

theorem commands_append_of_ok {cs : List Command}
    (h : Source.commands ⟨a ++ b, broken⟩ = .ok cs) :
    ∃ front, Source.commands ⟨a, none⟩ = .ok front ∧ front <+: cs := by
  cases found : Source.commands ⟨a, none⟩ with
  | error fault =>
      rw [commands_append_of_error ends b broken found] at h
      cases h
  | ok front =>
      refine ⟨front, rfl, ?_⟩
      have short : hasLineOver lineLimit a = false := by
        cases long : hasLineOver lineLimit a with
        | false => rfl
        | true =>
            have fault := Source.fault_eq_none found
            simp [Source.fault, long] at fault
      have read := Source.commands_eq_ok h
      rw [lines_append ends b broken short, readLines_append, Source.commands_eq_ok found] at read
      have longer := readLines_prefix read
      rwa [List.reverse_reverse] at longer

end

theorem runMoves_append (d : Int) (cs more : List Command) :
    runMoves d (cs ++ more) = runMoves d cs ++ runMoves (delayAfterAll d cs) more := by
  induction cs generalizing d with
  | nil => rfl
  | cons c cs ih =>
      rw [List.cons_append, runMoves, runMoves, ih, List.cons_append, List.append_assoc]
      rfl

section

variable {μ : Type} (guard : Guard μ)

/-- A rehearsal never takes an event back. -/
theorem Rehearsal.events_prefix (noted : Bool) (xs : List Move) (m : Machine (Rehearsal μ)) :
    m.host.events.toList <+:
      (performAll (Rehearsal.host guard .recorded true noted) xs m).1.host.events.toList := by
  rw [(Rehearsal.performAll_events guard noted xs m).1]
  exact List.prefix_append _ _

/-- More commands behind those of a script are reached only when these went through. -/
theorem behaviour_append (noted : Bool) (disk : Disk) (r : Rehearsal μ) {s s' : Script}
    (loaded : s.loaded = true) (loaded' : s'.loaded = true) (delay : s'.delay = s.delay)
    (commands : s.commands <+: s'.commands) :
    let front := s.behaviour guard noted disk r
    let whole := s'.behaviour guard noted disk r
    (front.fault = none → front.events <+: whole.events) ∧ (front.fault ≠ none → whole = front) := by
  intro front whole
  let host := Rehearsal.host guard .recorded true false
  obtain ⟨more, commands⟩ := commands
  have first : front = .ofOutcome (performAll host (runMoves s.delay s.commands) ⟨s.delay, r⟩) :=
    Script.behaviour_eq noted disk r loaded
  have both : whole = .ofOutcome (performAll host (runMoves s.delay s.commands ++
      runMoves (delayAfterAll s.delay s.commands) more) ⟨s.delay, r⟩) := by
    rw [← runMoves_append, commands, ← delay]
    exact Script.behaviour_eq noted disk r loaded'
  rw [performAll_append] at both
  rcases made : performAll host (runMoves s.delay s.commands) ⟨s.delay, r⟩ with ⟨mid, _ | fault⟩
  · rw [made] at first both
    refine ⟨fun _ => ?_, fun failed => ?_⟩
    · rw [first, both]
      exact Rehearsal.events_prefix guard false _ mid
    · rw [first] at failed
      exact absurd rfl failed
  · rw [made] at first both
    refine ⟨fun done => ?_, fun _ => both.trans first.symm⟩
    rw [first] at done
    cases done

end

/-- Let `a` be empty or end with a line feed, and `b` be any text. If `a ++ b` is loaded then `a` is,
the steps of its plan come first in that of both, and so do the events of its run if it goes
through, whatever the guard refuses, whenever the run is called off and whatever the default delay
is at the start; if it does not, the run of both is the same. If `a` is refused then `a ++ b` is,
with the same fault. -/
theorem appending_keeps_front {a : Text} (ends : a.EndsLine) (b : Text) (broken : Option Failure)
    (s s' : Script) :
    (∀ loaded', s'.loadFrom ⟨a ++ b, broken⟩ = .ok loaded' →
      ∃ loaded : Script, s.loadFrom ⟨a, none⟩ = .ok loaded ∧
        (∀ name name', (Plan.ofCommands name loaded.commands).steps <+:
          (Plan.ofCommands name' loaded'.commands).steps) ∧
        ∀ (μ : Type) (guard : Guard μ) (noted : Bool) (disk : Disk) (r : Rehearsal μ) (d : Int),
          let front := ({ loaded with delay := d } : Script).behaviour guard noted disk r
          let whole := ({ loaded' with delay := d } : Script).behaviour guard noted disk r
          (front.fault = none → front.events <+: whole.events) ∧
            (front.fault ≠ none → whole = front)) ∧
    ∀ fault, s.loadFrom ⟨a, none⟩ = .error fault →
      s'.loadFrom ⟨a ++ b, broken⟩ = .error fault := by
  constructor
  · intro loaded' accepted
    obtain ⟨cs, commands, rfl⟩ := Script.loadFrom_eq_ok_iff.mp accepted
    obtain ⟨front, found, first⟩ := commands_append_of_ok ends b broken commands
    refine ⟨_, Script.loadFrom_eq_ok_iff.mpr ⟨front, found, rfl⟩, ?_, ?_⟩
    · exact fun name name' => first.map Step.ofCommand
    · exact fun μ guard noted disk r d => behaviour_append guard noted disk r rfl rfl rfl first
  · intro fault refused
    rw [Script.loadFrom_eq_error_iff] at refused ⊢
    exact commands_append_of_error ends b broken refused

/-- A repetition that is appended refers to the last command in front of it, which is done as before;
and a text that is refused has another line appended that could be refused too. -/
theorem appending_keeps_front_repetition :
    let guard : Guard Unit := fun memory _ => (memory, none)
    let a := utf8 "DEFAULT_DELAY 5\nSTRING a\n"
    let b := utf8 "REPEAT 2\nDEFAULT_DELAY 9"
    let bad := utf8 "STRING a\nDELAY x\n"
    let s : Script := { path := utf8 "a" }
    let whole := (s.tryLoadFrom ⟨a ++ b, none⟩).1
    let disk : Disk := fun _ => .ok .directory
    let r : Rehearsal Unit := { recorder := ⟨(), #[]⟩ }
    (a.EndsLine ∧ bad.EndsLine ∧ whole.commands.length = 4) ∧
      (∃ loaded : Script, s.loadFrom ⟨a, none⟩ = .ok loaded ∧
        (Plan.ofCommands [] loaded.commands).steps <+: (Plan.ofCommands [] whole.commands).steps) ∧
      [.wait 2, .wait 5, .act (.type (utf8 "a"))] <+:
        (({ whole with delay := 2 } : Script).behaviour guard true disk r).events ∧
      s.loadFrom ⟨bad ++ utf8 "DELAY y", none⟩ = .error (.parse ⟨1, utf8 "DELAY x",
        .badMillis (utf8 "DELAY") (.number .syntaxFault (utf8 "x"))⟩) := by
  intro guard a b bad s whole disk r
  let front := (s.tryLoadFrom ⟨a, none⟩).1
  have computed : (a.EndsLine ∧ bad.EndsLine ∧ whole.commands.length = 4) ∧
      (s.tryLoadFrom ⟨a ++ b, none⟩).2 = none ∧ (s.tryLoadFrom ⟨a, none⟩).2 = none ∧
      ({ front with delay := 2 } : Script).behaviour guard true disk r =
        ⟨[.wait 2, .wait 5, .act (.type (utf8 "a"))], none, 5⟩ ∧
      (s.tryLoadFrom ⟨bad, none⟩).2 = some (.parse ⟨1, utf8 "DELAY x",
        .badMillis (utf8 "DELAY") (.number .syntaxFault (utf8 "x"))⟩) := by
    decide +kernel
  obtain ⟨⟨ends, ends', length⟩, ok, ok', seen, refused⟩ := computed
  obtain ⟨loaded, accepted, steps, runs⟩ :=
    (appending_keeps_front ends b none s s).1 whole (Script.loadFrom_of_none ok)
  refine ⟨⟨ends, ends', length⟩, ⟨loaded, accepted, steps [] []⟩, ?_, ?_⟩
  · rw [Script.loadFrom_of_none ok'] at accepted
    cases accepted
    obtain ⟨through, -⟩ := runs Unit guard true disk r 2
    rw [seen] at through
    exact through rfl
  · apply (appending_keeps_front ends' (utf8 "DELAY y") none s s).2
    exact Script.loadFrom_of_some refused

end KeyScript
