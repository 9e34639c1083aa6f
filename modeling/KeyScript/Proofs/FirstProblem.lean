import KeyScript.Proofs.Appending
import KeyScript.Proofs.Faults

/-!
What the first problem in a text does to a load. Lines are read one after the
other up to the first that is too long or no statement, whichever this is, and
that line alone decides why the load failed. A reader that failed is heard of
only behind lines that are all good.
-/

namespace KeyScript

/-- A line that is neither blank nor a statement. -/
def Malformed (line : Text) : Prop :=
  line.trim ≠ [] ∧ ∃ problem, Statement.read true line.trim = .error problem

/-- What is wrong with a malformed line does not depend on the lines before it. -/
theorem parse_of_malformed {line : Text} (h : Malformed line) (n : Nat) :
    ∃ problem, ∀ recent, Command.parse line.trim n (some recent) =
      .error (.rejected ⟨n, line.trim, problem⟩) := by
  obtain ⟨written, problem, read⟩ := h
  have still : line.trim.trim ≠ [] := by rwa [Text.trim_trim]
  refine ⟨problem, ?_⟩
  intro recent
  obtain ⟨problem', read', refused⟩ | ⟨statement, c, read', -⟩ :=
    parse_of_nonneg still (Int.natCast_nonneg n) recent
  · rw [Text.trim_trim, read] at read'
    cases read'
    rw [refused, Text.trim_trim]
  · rw [Text.trim_trim, read] at read'
    cases read'

theorem parse_of_not_malformed {line : Text} (h : ¬ Malformed line) (written : line.trim ≠ [])
    (n : Nat) (recent : List Command) : ∃ c, Command.parse line.trim n (some recent) = .ok c := by
  have still : line.trim.trim ≠ [] := by rwa [Text.trim_trim]
  obtain ⟨problem, read, -⟩ | ⟨statement, c, -, taken⟩ :=
    parse_of_nonneg still (Int.natCast_nonneg n) recent
  · rw [Text.trim_trim] at read
    exact absurd ⟨written, problem, read⟩ h
  · exact ⟨c, taken⟩

theorem readLines_of_not_malformed {lines : List Text} (h : ∀ line ∈ lines, ¬ Malformed line)
    (n : Nat) (recent : List Command) : ∃ cs, readLines n recent lines = .ok cs := by
  induction lines generalizing n recent with
  | nil => exact ⟨_, rfl⟩
  | cons line rest ih =>
      obtain ⟨good, others⟩ := List.forall_mem_cons.mp h
      rw [readLines]
      by_cases blank : line.trim.isEmpty = true
      · rw [if_pos blank]
        exact ih others (n + 1) recent
      · rw [if_neg blank]
        have written : line.trim ≠ [] := fun empty => blank (List.isEmpty_iff.mpr empty)
        obtain ⟨c, taken⟩ := parse_of_not_malformed good written n recent
        rw [taken]
        exact ih others (n + 1) (c :: recent)

/-- The first malformed line decides, whatever stands behind it. -/
theorem readLines_stops {front : List Text} {line : Text} (good : ∀ l ∈ front, ¬ Malformed l)
    (bad : Malformed line) (n : Nat) (recent : List Command) :
    ∃ problem, (∀ recent, Command.parse line.trim (n + front.length : Nat) (some recent) =
        .error (.rejected ⟨(n + front.length : Nat), line.trim, problem⟩)) ∧
      ∀ back, readLines n recent (front ++ line :: back) =
        .error (.parse ⟨(n + front.length : Nat), line.trim, problem⟩) := by
  obtain ⟨problem, refused⟩ := parse_of_malformed bad (n + front.length)
  obtain ⟨cs, read⟩ := readLines_of_not_malformed good n recent
  have written : ¬ line.trim.isEmpty = true := fun empty => bad.1 (List.isEmpty_iff.mp empty)
  refine ⟨problem, refused, ?_⟩
  intro back
  simp only [readLines_append, read, readLines, if_neg written, refused, LoadFault.ofParse]

theorem exists_first {α : Type} {P : α → Prop} {l : List α} (h : ∃ a ∈ l, P a) :
    ∃ front a back, l = front ++ a :: back ∧ (∀ b ∈ front, ¬ P b) ∧ P a := by
  induction l with
  | nil => simp at h
  | cons a l ih =>
      by_cases first : P a
      · exact ⟨[], a, l, rfl, by simp, first⟩
      · simp only [List.mem_cons, exists_eq_or_imp] at h
        obtain ⟨front, b, back, rfl, before, found⟩ := ih (h.resolve_left first)
        exact ⟨a :: front, b, back, rfl, List.forall_mem_cons.mpr ⟨first, before⟩, found⟩

theorem readLines_of_malformed {lines : List Text} (h : ∃ line ∈ lines, Malformed line) (n : Nat)
    (recent : List Command) : ∃ e, readLines n recent lines = .error (.parse e) := by
  obtain ⟨front, line, back, rfl, good, bad⟩ := exists_first h
  obtain ⟨problem, -, stopped⟩ := readLines_stops good bad n recent
  exact ⟨_, stopped back⟩

/-- Each command is what its own line says when it follows the commands before it. -/
theorem readLines_parsed {n : Nat} {recent : List Command} {lines : List Text} {cs : List Command}
    (h : readLines n recent lines = .ok cs)
    (start : ∀ later c earlier, recent = later ++ c :: earlier →
      Command.parse c.raw c.line (some earlier) = .ok c) :
    ∀ before c after, cs = before ++ c :: after →
      Command.parse c.raw c.line (some before.reverse) = .ok c := by
  induction lines generalizing n recent with
  | nil =>
      cases h
      intro before c after same
      apply start after.reverse c before.reverse
      rw [← List.reverse_reverse recent, same]
      simp
  | cons line rest ih =>
      obtain ⟨-, h⟩ | ⟨c, -, parsed, h⟩ := readLines_cons h
      · exact ih h start
      · apply ih h
        -- The commands so far still come each from its own line when `c` has joined them.
        intro later c' earlier same
        cases later with
        | nil =>
            obtain ⟨rfl, rfl⟩ := List.cons.inj same
            rwa [parse_raw parsed, parse_line parsed, Text.trim_trim]
        | cons d later => exact start later c' earlier (List.cons.inj same).2

namespace Source

/-- Text that cannot be read to its end: a line is too long, or reading failed. -/
def CutShort (source : Source) : Prop :=
  (∃ line ∈ physicalLines source.text, lineLimit ≤ line.length) ∨ source.broken ≠ none

theorem fault_of_cutShort {source : Source} (h : source.CutShort) :
    source.fault = some .lineTooLong ∨
      ∃ cause, source.broken = some cause ∧ source.fault = some (.readFailed cause) := by
  rw [fault]
  by_cases long : hasLineOver lineLimit source.text = true
  · exact .inl (if_pos long)
  · right
    have short : ¬ ∃ line ∈ physicalLines source.text, lineLimit ≤ line.length := by
      simpa only [hasLineOver, List.any_eq_true, decide_eq_true_eq] using long
    obtain ⟨cause, broken⟩ := Option.ne_none_iff_exists'.mp (h.resolve_left short)
    refine ⟨cause, broken, ?_⟩
    rw [if_neg long, broken]
    rfl

theorem fault_of_not_cutShort {source : Source} (h : ¬ source.CutShort) : source.fault = none := by
  obtain ⟨short, whole⟩ := not_or.mp h
  have within : hasLineOver lineLimit source.text = false := by
    rw [← Bool.not_eq_true]
    simpa only [hasLineOver, List.any_eq_true, decide_eq_true_eq] using short
  simp only [fault, within, Classical.not_not.mp whole]
  rfl

theorem commands_of_malformed {source : Source} (h : ∃ line ∈ source.lines, Malformed line) :
    ∃ e, source.commands = .error (.parse e) := by
  obtain ⟨e, refused⟩ := readLines_of_malformed h 0 []
  exact ⟨e, by simp only [commands, refused]⟩

theorem commands_of_fault {source : Source} (h : ∀ line ∈ source.lines, ¬ Malformed line)
    {fault : LoadFault} (broken : source.fault = some fault) : source.commands = .error fault := by
  obtain ⟨cs, read⟩ := readLines_of_not_malformed h 0 []
  simp only [commands, read, broken]

theorem commands_of_whole {source : Source} (h : ∀ line ∈ source.lines, ¬ Malformed line)
    (whole : source.fault = none) : ∃ cs, source.commands = .ok cs := by
  obtain ⟨cs, read⟩ := readLines_of_not_malformed h 0 []
  exact ⟨cs, by simp only [commands, read, whole]⟩

end Source

/-- The lines of a text: what stands before each line feed, and what stands behind the last if
this is not nothing. -/
inductive Splits : Text → List Text → Prop
  | nil : Splits [] []
  | last {line : Text} : newline ∉ line → line ≠ [] → Splits line [line]
  | more {line rest : Text} {lines : List Text} :
      newline ∉ line → Splits rest lines → Splits (line ++ newline :: rest) (line :: lines)

theorem physicalLines_more {line : Text} (free : newline ∉ line) (rest : Text) :
    physicalLines (line ++ newline :: rest) = line :: physicalLines rest := by
  rw [Text.physicalLines_cut, Text.split_of_notMem free, List.singleton_append]

theorem physicalLines_last {line : Text} (free : newline ∉ line) (filled : line ≠ []) :
    physicalLines line = [line] := by
  rw [physicalLines, Text.split_of_notMem free]
  exact if_neg (by simpa using filled)

theorem Splits.eq {t : Text} {lines : List Text} (h : Splits t lines) :
    lines = physicalLines t := by
  induction h with
  | nil => rfl
  | last free filled => rw [physicalLines_last free filled]
  | more free _ ih => rw [physicalLines_more free, ih]

theorem splits_physicalLines (t : Text) : Splits t (physicalLines t) := by
  induction t using Text.split_induction newline with
  | part t free =>
      by_cases filled : t = []
      · rw [filled]
        exact .nil
      · rw [physicalLines_last free filled]
        exact .last free filled
  | cut line t free ih =>
      rw [physicalLines_more free]
      exact .more free ih

/-- A line that a load gets past: it is not too long, and blank or a statement. -/
structure Passable (line : Text) : Prop where
  short : line.length ≤ 1048575
  read : (dropReturn line).trim ≠ [] →
    ∃ c, Command.parse (dropReturn line).trim 0 (some []) = .ok c

theorem passable_iff {line : Text} :
    Passable line ↔ line.length < lineLimit ∧ ¬ Malformed (dropReturn line) := by
  constructor
  · rintro ⟨short, read⟩
    refine ⟨Nat.lt_succ_of_le short, ?_⟩
    intro bad
    obtain ⟨c, parsed⟩ := read bad.1
    obtain ⟨problem, refused⟩ := parse_of_malformed bad 0
    cases (refused []).symm.trans parsed
  · rintro ⟨short, good⟩
    exact ⟨Nat.le_of_lt_succ short, fun written => parse_of_not_malformed good written 0 []⟩

theorem not_malformed_of_passable {lines : List Text} (h : ∀ line ∈ lines, Passable line) :
    ∀ line ∈ lines.map dropReturn, ¬ Malformed line := by
  intro line hl
  obtain ⟨physical, hp, rfl⟩ := List.mem_map.mp hl
  exact (passable_iff.mp (h physical hp)).2

namespace Source

variable {source : Source}

theorem lines_of_passable {front rest : List Text}
    (lines : physicalLines source.text = front ++ rest) (passable : ∀ l ∈ front, Passable l) :
    source.lines = front.map dropReturn ++
      (rest.takeWhile fun line => line.length < lineLimit).map dropReturn := by
  rw [Source.lines, linesWithin, lines, List.takeWhile_append_of_pos, List.map_append]
  intro line hl
  exact decide_eq_true (passable_iff.mp (passable line hl)).1

section

variable {front back : List Text} {line : Text}
  (lines : physicalLines source.text = front ++ line :: back)
  (passable : ∀ l ∈ front, Passable l)
include lines passable

theorem commands_at_malformed (short : line.length < lineLimit)
    (bad : Malformed (dropReturn line)) :
    ∃ problem, (∀ before, Command.parse (dropReturn line).trim front.length (some before) =
        .error (.rejected ⟨front.length, (dropReturn line).trim, problem⟩)) ∧
      source.commands = .error (.parse ⟨front.length, (dropReturn line).trim, problem⟩) := by
  obtain ⟨problem, refused, stopped⟩ :=
    readLines_stops (not_malformed_of_passable passable) bad 0 []
  rw [List.length_map, Nat.zero_add] at refused stopped
  refine ⟨problem, refused, ?_⟩
  have fits : decide (line.length < lineLimit) = true := decide_eq_true short
  rw [commands, lines_of_passable lines passable, List.takeWhile_cons, fits, if_pos rfl,
    List.map_cons, stopped]

theorem commands_at_long (long : lineLimit ≤ line.length) :
    source.commands = .error .lineTooLong := by
  have past : decide (line.length < lineLimit) = false := decide_eq_false (Nat.not_lt.mpr long)
  have looked := lines_of_passable lines passable
  rw [List.takeWhile_cons, past, if_neg Bool.false_ne_true, List.map_nil, List.append_nil] at looked
  apply commands_of_fault
  · rw [looked]
    exact not_malformed_of_passable passable
  · rw [fault, hasLineOver, lines, List.any_append, List.any_cons, decide_eq_true long,
      Bool.true_or, Bool.or_true, if_pos rfl]

end

section

variable (passable : ∀ line ∈ physicalLines source.text, Passable line)
include passable

theorem fault_of_passable : source.fault = source.broken.map .readFailed := by
  apply if_neg
  intro long
  obtain ⟨line, hl, past⟩ := List.any_eq_true.mp long
  have short := (passable_iff.mp (passable line hl)).1
  exact Nat.not_le.mpr short (of_decide_eq_true past)

theorem not_malformed_lines : ∀ line ∈ source.lines, ¬ Malformed line := by
  rw [lines_of_passable (List.append_nil _).symm passable, List.takeWhile_nil, List.map_nil,
    List.append_nil]
  exact not_malformed_of_passable passable

end

theorem commands_placed {cs : List Command} (h : source.commands = .ok cs) :
    cs.map (fun c => (c.raw, c.line)) =
      (((physicalLines source.text).map fun line => (dropReturn line).trim).zipIdx.filter
        fun e => !e.1.isEmpty).map fun e => (e.1, (e.2 : Int)) := by
  have placed := readLines_placed (commands_eq_ok h)
  rwa [lines_eq (fault_eq_none h), List.map_map] at placed

end Source

/-- The first problem in a text decides what becomes of a load. Before it stand lines that are short
enough and blank or statements. If it is a line that does not parse, its error is given, with its
number and its trimmed text; if it is a line of more than 1048575 bytes, that is what is wrong;
and if there is none, the reader may still have failed. Otherwise the load succeeds, and each line
that is not blank has become a command with its number and its trimmed text. -/
theorem first_problem_decides (s : Script) (source : Source) :
    (∃ lines, Splits source.text lines) ∧
    ∀ lines, Splits source.text lines →
      (∀ front line back, lines = front ++ line :: back → (∀ l ∈ front, Passable l) →
        (line.length ≤ 1048575 → ¬ Passable line →
          ∃ e, s.loadFrom source = .error (.parse e) ∧
            e.line = front.length ∧ e.raw = (dropReturn line).trim ∧
            ∀ before, Command.parse (dropReturn line).trim front.length (some before) =
              .error (.rejected e)) ∧
        (1048575 < line.length → s.loadFrom source = .error .lineTooLong)) ∧
      ((∀ line ∈ lines, Passable line) →
        (∀ cause, source.broken = some cause →
          s.loadFrom source = .error (.readFailed cause)) ∧
        (source.broken = none →
          ∃ loaded, s.loadFrom source = .ok loaded ∧
            loaded.commands.map (fun c => (c.raw, c.line)) =
              ((lines.map fun line => (dropReturn line).trim).zipIdx.filter
                fun e => !e.1.isEmpty).map (fun e => (e.1, (e.2 : Int))) ∧
            ∀ before c after, loaded.commands = before ++ c :: after →
              Command.parse c.raw c.line (some before.reverse) = .ok c)) := by
  refine ⟨⟨_, splits_physicalLines source.text⟩, ?_⟩
  intro lines splits
  rw [splits.eq]
  refine ⟨?_, ?_⟩
  · intro front line back same passable
    refine ⟨?_, ?_⟩
    · intro short stops
      have fits : line.length < lineLimit := Nat.lt_succ_of_le short
      have bad : Malformed (dropReturn line) := by
        by_contra good
        exact stops (passable_iff.mpr ⟨fits, good⟩)
      obtain ⟨problem, refused, failed⟩ := Source.commands_at_malformed same passable fits bad
      exact ⟨_, Script.loadFrom_eq_error_iff.mpr failed, rfl, rfl, refused⟩
    · intro long
      exact Script.loadFrom_eq_error_iff.mpr (Source.commands_at_long same passable long)
  · intro passable
    have good := Source.not_malformed_lines passable
    have fault := Source.fault_of_passable passable
    refine ⟨?_, ?_⟩
    · intro cause broken
      rw [broken] at fault
      exact Script.loadFrom_eq_error_iff.mpr (Source.commands_of_fault good fault)
    · intro whole
      rw [whole] at fault
      obtain ⟨cs, read⟩ := Source.commands_of_whole good fault
      refine ⟨_, Script.loadFrom_eq_ok_iff.mpr ⟨cs, read, rfl⟩, Source.commands_placed read, ?_⟩
      apply readLines_parsed (Source.commands_eq_ok read)
      intro later c earlier none
      simp at none

theorem first_problem_decides_third :
    let source : Source := ⟨utf8 "\r\nSTRING a\r\n DELAY x \r\nREPEAT 2", some [.plain (utf8 "lost")]⟩
    let s : Script := { path := utf8 "s" }
    ∃ e, s.loadFrom source = .error (.parse e) ∧ e.line = 2 ∧ e.raw = utf8 "DELAY x" := by
  intro source s
  have blank : Passable (utf8 "\r") :=
    ⟨by decide, fun written => absurd (by decide +kernel) written⟩
  have types : Passable (utf8 "STRING a\r") :=
    ⟨by decide, fun _ => ⟨.plain (utf8 "STRING a") 0 (.typeText (utf8 "a")), by decide +kernel⟩⟩
  have bad : Malformed (dropReturn (utf8 " DELAY x \r")) :=
    ⟨by decide +kernel, .badMillis (utf8 "DELAY") (.number .syntaxFault (utf8 "x")), by
      decide +kernel⟩
  have lines : physicalLines source.text =
      [utf8 "\r", utf8 "STRING a\r"] ++ utf8 " DELAY x \r" :: [utf8 "REPEAT 2"] := by
    decide +kernel
  have decided := ((first_problem_decides s source).2 _ (splits_physicalLines _)).1 _ _ _ lines
    (by simp [blank, types])
  obtain ⟨e, failed, line, raw, -⟩ :=
    decided.1 (by decide) fun passable => (passable_iff.mp passable).2 bad
  exact ⟨e, failed, line, raw.trans (by decide +kernel)⟩

end KeyScript
