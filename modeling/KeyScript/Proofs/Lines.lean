import KeyScript.Proofs.LoadedPlan
import KeyScript.Proofs.Presses

/-!
What counts of the lines of a text. A text can be put together from lines and
taken apart again. A load looks at lines only when they are trimmed, so neither
the white space around them nor blank lines at the end make a difference to it;
every other line is found again, trimmed and with its number, among the commands.
-/

namespace KeyScript
namespace Text

/-- The lines are what stands between line feeds, but for nothing behind the last. -/
theorem getD_physicalLines (t : Text) (k : Nat) :
    (physicalLines t)[k]?.getD [] = (t.split newline)[k]?.getD [] := by
  rw [physicalLines]
  split
  · rename_i last
    obtain ⟨front, parts⟩ := List.getLast?_eq_some_iff.mp (beq_iff_eq.mp last)
    rw [parts, List.dropLast_concat, List.getElem?_append]
    split
    · rfl
    · rename_i behind
      rw [List.getElem?_eq_none (Nat.not_lt.mp behind)]
      cases k - front.length <;> rfl
  · rfl

theorem getD_physicalLines_join {lines : List Text} (free : ∀ line ∈ lines, newline ∉ line)
    (k : Nat) : (physicalLines (join [newline] lines))[k]?.getD [] = lines[k]?.getD [] := by
  by_cases none : lines = []
  · rw [none]
    rfl
  · rw [getD_physicalLines, split_join none free]

theorem physicalLines_flatMap {lines : List Text} (free : ∀ line ∈ lines, newline ∉ line) :
    physicalLines (lines.flatMap fun line => line ++ [newline]) = lines := by
  have parts : split newline (lines.flatMap fun line => line ++ [newline]) = lines ++ [[]] := by
    induction lines with
    | nil => rfl
    | cons line rest ih =>
        obtain ⟨first, others⟩ := List.forall_mem_cons.mp free
        rw [List.flatMap_cons, List.append_assoc, List.singleton_append, split_append_cons first,
          ih others, List.cons_append]
  simp [physicalLines, parts]

theorem newline_notMem_physicalLines {t line : Text} (h : line ∈ physicalLines t) :
    newline ∉ line := by
  rw [physicalLines] at h
  split at h
  · exact notMem_of_mem_split (List.dropLast_subset _ h)
  · exact notMem_of_mem_split h

theorem dropEndWhile_append {α : Type} {p : α → Bool} {a : α} (h : p a) (l : List α) :
    dropEndWhile p (l ++ [a]) = dropEndWhile p l := by
  simp [dropEndWhile, h]

/-- White space at the end makes no difference when it is trimmed off. -/
theorem trim_append {s t : Text} {c : Char} (blank : isBlankChar c)
    (h : (s ++ t).glyphs = s.glyphs ++ [.char c]) : (s ++ t).trim = s.trim := by
  have pos : Glyph.isBlank (.char c) = true := blank
  rw [trim, trim, h, List.dropWhile_append]
  split
  · rename_i all
    rw [List.isEmpty_iff.mp all, List.dropWhile_cons_of_pos pos]
    rfl
  · rw [dropEndWhile_append pos]

theorem trim_dropReturn (line : Text) : (dropReturn line).trim = line.trim := by
  rw [dropReturn]
  split
  · rename_i last
    obtain ⟨front, rfl⟩ := List.getLast?_eq_some_iff.mp (beq_iff_eq.mp last)
    rw [List.dropLast_concat]
    have starts (b : UInt8) (first : [(13 : UInt8)].head? = some b) : Glyph.isTail b = false := by
      cases first
      decide
    have blank : isBlankChar '\x0d' = true := by decide
    exact (trim_append blank (glyphs_append starts front)).symm
  · rfl

end Text

theorem readLines_blank {lines : List Text} (h : ∀ k : Nat, Text.trim (lines[k]?.getD []) = [])
    (n : Nat) (recent : List Command) : readLines n recent lines = .ok recent.reverse := by
  induction lines generalizing n with
  | nil => rfl
  | cons line rest ih =>
      have blank : line.trim = [] := h 0
      simp only [readLines, blank]
      exact ih (fun k => h (k + 1)) (n + 1)

/-- Lines are read for what is left of them when they are trimmed, and a line that is missing counts
as blank. -/
theorem readLines_congr {lines lines' : List Text}
    (h : ∀ k : Nat, Text.trim (lines[k]?.getD []) = Text.trim (lines'[k]?.getD [])) (n : Nat)
    (recent : List Command) : readLines n recent lines = readLines n recent lines' := by
  induction lines generalizing lines' n recent with
  | nil => exact (readLines_blank (fun k => (h k).symm) n recent).symm
  | cons line rest ih =>
      cases lines' with
      | nil => exact readLines_blank h n recent
      | cons line' rest' =>
          have first : line.trim = line'.trim := h 0
          have others (k : Nat) : Text.trim (rest[k]?.getD []) = Text.trim (rest'[k]?.getD []) :=
            h (k + 1)
          simp only [readLines, first]
          split
          · exact ih others (n + 1) recent
          · cases Command.parse line'.trim n (some recent) with
            | ok c => exact ih others (n + 1) (c :: recent)
            | error fault => rfl

/-- Carriage returns at the ends of lines are trimmed off in any case. -/
theorem Source.commands_of_short {t : Text} (short : hasLineOver lineLimit t = false) :
    Source.commands ⟨t, none⟩ = readLines 0 [] (physicalLines t) := by
  have whole : Source.fault ⟨t, none⟩ = none := by simp [Source.fault, short]
  have lines : readLines 0 [] (Source.lines ⟨t, none⟩) = readLines 0 [] (physicalLines t) := by
    apply readLines_congr
    intro k
    rw [Source.lines_eq whole, List.getElem?_map]
    cases (physicalLines t)[k]? with
    | none => rfl
    | some line => exact Text.trim_dropReturn line
  rw [Source.commands, lines, whole]
  cases readLines 0 [] (physicalLines t) <;> rfl

/-- A command for every line that is not blank, with its number and what is left of it when it is
trimmed. -/
theorem readLines_placed {n : Nat} {recent : List Command} {lines : List Text}
    {cs : List Command} (h : readLines n recent lines = .ok cs) :
    cs.map (fun c => (c.raw, c.line)) = recent.reverse.map (fun c => (c.raw, c.line)) ++
      (((lines.map Text.trim).zipIdx n).filter fun e => !e.1.isEmpty).map
        fun e => (e.1, (e.2 : Int)) := by
  induction lines generalizing n recent with
  | nil =>
      cases h
      simp
  | cons line rest ih =>
      obtain ⟨blank, h⟩ | ⟨c, written, hp, h⟩ := readLines_cons h
      · rw [ih h]
        simp [blank]
      · rw [ih h]
        simp [written, parse_raw hp, parse_line hp, Text.trim_trim]

section

variable {source : Source} {cs : List Command} (h : source.commands = .ok cs)
include h

theorem mem_commands_placed {n : Nat} {t : Text} :
    (∃ c ∈ cs, c.line = n ∧ c.raw = t) ↔ (source.lines.map Text.trim)[n]? = some t ∧ t ≠ [] := by
  have placed := readLines_placed (Source.commands_eq_ok h)
  rw [List.reverse_nil, List.map_nil, List.nil_append] at placed
  have member : (∃ c ∈ cs, c.line = n ∧ c.raw = t) ↔
      (t, (n : Int)) ∈ cs.map fun c => (c.raw, c.line) := by
    simp [and_comm]
  rw [member, placed]
  constructor
  · intro found
    obtain ⟨e, kept, eq⟩ := List.mem_map.mp found
    obtain ⟨place, filled⟩ := List.mem_filter.mp kept
    obtain ⟨rfl, line⟩ := Prod.mk.inj eq
    rw [← Int.ofNat.inj line]
    exact ⟨List.mem_zipIdx_iff_getElem?.mp place, by simpa using filled⟩
  · rintro ⟨place, filled⟩
    have kept : (t, n) ∈ (source.lines.map Text.trim).zipIdx :=
      List.mem_zipIdx_iff_getElem?.mpr place
    exact List.mem_map.mpr ⟨(t, n), List.mem_filter.mpr ⟨kept, by simpa using filled⟩, rfl⟩

theorem newline_notMem_raw : ∀ c ∈ cs, newline ∉ c.raw := by
  intro c hc
  have member : c.raw ∈ cs.map Command.raw := List.mem_map_of_mem hc
  rw [commands_raw h] at member
  obtain ⟨text, found, eq⟩ := List.mem_map.mp member
  obtain ⟨line, hl, rfl⟩ := List.mem_map.mp (List.mem_filter.mp found).1
  rw [Source.lines_eq (Source.fault_eq_none h)] at hl
  obtain ⟨physical, hp, rfl⟩ := List.mem_map.mp hl
  intro inside
  rw [← eq, Text.trim_trim, Text.trim_dropReturn] at inside
  exact Text.newline_notMem_physicalLines hp ((Text.trim_infix physical).subset inside)

end

end KeyScript
