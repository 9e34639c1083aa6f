import Mathlib.Data.List.TakeWhile
import KeyScript.Proofs.BinaryForm
import KeyScript.Proofs.Loading
import KeyScript.Proofs.Statements

/-!
The plan of a script that was loaded. It depends on nothing but the text, not on
what the script held before. It can be read back from its binary form exactly if
the text is well-formed and neither its commands nor the keys of one of them are
too many for the reader.
-/

namespace KeyScript
namespace Text

/-- A text is well-formed if what stands between its separators is. -/
theorem isUtf8_splitAt {sep : UInt8} (ascii : sep.toNat < 128) (part l : Text) :
    (∀ piece ∈ splitAt (· == sep) [] part l, IsUtf8 piece) ↔ IsUtf8 (part.reverse ++ l) := by
  induction l generalizing part with
  | nil => simp [splitAt_nil]
  | cons a l ih =>
      by_cases h : a = sep
      · rw [splitAt_cons_of_pos _ (by simpa using h), List.forall_mem_cons, ih, h,
          isUtf8_cut ascii]
        rfl
      · rw [splitAt_cons_of_neg _ (by simpa using h), ih, List.reverse_cons, List.append_assoc]
        rfl

theorem isUtf8_physicalLines (t : Text) : (∀ line ∈ physicalLines t, line.IsUtf8) ↔ t.IsUtf8 := by
  have ascii : newline.toNat < 128 := by decide
  have all : (∀ line ∈ t.split newline, line.IsUtf8) ↔ t.IsUtf8 := isUtf8_splitAt ascii [] t
  rw [← all, physicalLines]
  split
  · rename_i last
    -- the part that is dropped is empty
    obtain ⟨front, parts⟩ := List.getLast?_eq_some_iff.mp (beq_iff_eq.mp last)
    rw [parts, List.dropLast_concat, List.forall_mem_append, List.forall_mem_singleton]
    exact ⟨fun front => ⟨front, isUtf8_nil⟩, And.left⟩
  · rfl

/-- There is a byte for every piece if the last one is not empty. -/
theorem length_splitAt_le_of_last {α : Type} (p : α → Bool) (part l : List α)
    (last : (splitAt p [] part l).getLast? ≠ some []) :
    (splitAt p [] part l).length ≤ part.length + l.length := by
  induction l generalizing part with
  | nil =>
      have filled : part ≠ [] := by simpa [splitAt_nil] using last
      exact List.length_pos_iff.mpr filled
  | cons a l ih =>
      by_cases h : p a
      · rw [splitAt_cons_of_pos p h] at last ⊢
        have later := ih []
        cases pieces : splitAt p [] [] l with
        | nil =>
            simp only [List.length_cons, List.length_nil]
            omega
        | cons piece more =>
            rw [pieces, List.getLast?_cons_cons] at last
            rw [pieces] at later
            have bound := later last
            simp only [List.length_cons, List.length_nil] at bound ⊢
            omega
      · rw [splitAt_cons_of_neg p h] at last ⊢
        have later := ih (a :: part) last
        simp only [List.length_cons] at later ⊢
        omega

theorem length_physicalLines_le (t : Text) : (physicalLines t).length ≤ t.length := by
  rw [physicalLines]
  split
  · have parts : (t.split newline).length ≤ t.length + 1 := length_splitAt_le (· == newline) [] t
    rw [List.length_dropLast]
    omega
  · rename_i last
    have parts : (t.split newline).length ≤ 0 + t.length :=
      length_splitAt_le_of_last (· == newline) [] t fun empty => last (beq_iff_eq.mpr empty)
    omega

theorem isUtf8_dropReturn (line : Text) : IsUtf8 (dropReturn line) ↔ line.IsUtf8 := by
  rw [dropReturn]
  split
  · rename_i last
    obtain ⟨front, rfl⟩ := List.getLast?_eq_some_iff.mp (beq_iff_eq.mp last)
    have ascii : (13 : UInt8).toNat < 128 := by decide
    rw [List.dropLast_concat, isUtf8_cut ascii]
    exact ⟨fun front => ⟨front, isUtf8_nil⟩, And.left⟩
  · rfl

theorem length_dropReturn_le (line : Text) : (dropReturn line).length ≤ line.length := by
  rw [dropReturn]
  split
  · rw [List.length_dropLast]
    omega
  · exact Nat.le_refl _

/-- No line is left out when all of them are short enough. -/
theorem linesWithin_of_short {limit : Nat} {t : Text}
    (short : ∀ line ∈ physicalLines t, line.length < limit) :
    linesWithin limit t = (physicalLines t).map dropReturn := by
  rw [linesWithin, List.takeWhile_eq_self_iff.mpr]
  exact fun line hl => decide_eq_true (short line hl)

end Text

namespace Source

/-- The lines that are looked at are all lines of a source without a fault. -/
theorem lines_eq {source : Source} (h : source.fault = none) :
    source.lines = (physicalLines source.text).map dropReturn := by
  have short : hasLineOver lineLimit source.text = false := by
    cases long : hasLineOver lineLimit source.text with
    | false => rfl
    | true => simp [fault, long] at h
  apply Text.linesWithin_of_short
  intro line hl
  simp only [hasLineOver, List.any_eq_false, decide_eq_true_eq] at short
  exact Nat.lt_of_not_le (short line hl)

theorem isUtf8_lines {source : Source} (h : source.fault = none) :
    (∀ line ∈ source.lines, line.IsUtf8) ↔ source.text.IsUtf8 := by
  rw [lines_eq h, List.forall_mem_map, ← Text.isUtf8_physicalLines]
  exact forall₂_congr fun line _ => Text.isUtf8_dropReturn line

theorem length_lines_le (source : Source) : source.lines.length ≤ source.text.length := by
  rw [lines, linesWithin, List.length_map]
  exact Nat.le_trans (List.takeWhile_prefix _).length_le (Text.length_physicalLines_le _)

theorem length_line_lt (source : Source) : ∀ line ∈ source.lines, line.length < lineLimit := by
  intro line hl
  obtain ⟨physical, found, rfl⟩ := List.mem_map.mp hl
  have within := List.mem_takeWhile_imp found
  exact Nat.lt_of_le_of_lt (Text.length_dropReturn_le _) (of_decide_eq_true within)

theorem fault_eq_none {source : Source} {cs : List Command} (h : source.commands = .ok cs) :
    source.fault = none := by
  simp only [commands] at h
  split at h
  · cases h
  · split at h
    · cases h
    · assumption

end Source

/-- The commands have the lines that are not blank, trimmed, as their texts. -/
theorem readLines_raw {n : Nat} {recent : List Command} {lines : List Text} {cs : List Command}
    (h : readLines n recent lines = .ok cs) :
    cs.map Command.raw = recent.reverse.map Command.raw ++
      ((lines.map Text.trim).filter fun text => !text.isEmpty).map Text.trim := by
  induction lines generalizing n recent with
  | nil =>
      cases h
      simp
  | cons line rest ih =>
      obtain ⟨blank, h⟩ | ⟨c, written, hp, h⟩ := readLines_cons h
      · rw [ih h]
        simp [blank]
      · rw [ih h]
        simp [written, parse_raw hp]

theorem readLines_line_lt {n : Nat} {recent : List Command} {lines : List Text}
    {cs : List Command} (before : ∀ c ∈ recent, c.line < n)
    (h : readLines n recent lines = .ok cs) : ∀ c ∈ cs, c.line < n + lines.length := by
  induction lines generalizing n recent with
  | nil =>
      cases h
      simpa using before
  | cons line rest ih =>
      have later : ∀ c ∈ recent, c.line < (n + 1 : Nat) := fun c hc => by
        have := before c hc
        omega
      have behind (bound : ∀ c ∈ cs, c.line < (n + 1 : Nat) + rest.length) :
          ∀ c ∈ cs, c.line < n + (line :: rest).length := fun c hc => by
        have := bound c hc
        simp only [List.length_cons]
        omega
      obtain ⟨_, h⟩ | ⟨c, _, hp, h⟩ := readLines_cons h
      · exact behind (ih later h)
      · have hline := parse_line hp
        refine behind (ih (List.forall_mem_cons.mpr ⟨?_, later⟩) h)
        omega

theorem Linked.target_mem {recent : List Command} (h : Linked recent) {c t : Command}
    (hc : c ∈ recent) (ht : c.target? = some t) : t ∈ recent ∨ t = .nothing := by
  obtain ⟨i, hi⟩ := List.getElem?_of_mem hc
  rw [h.target_eq hi ht]
  cases before : recent[i + 1]? with
  | none => exact .inr rfl
  | some b => exact .inl (List.mem_of_getElem? before)

section

variable {source : Source} {cs : List Command} (h : source.commands = .ok cs)
include h

theorem commands_fit : ∀ c ∈ cs, c.Fits :=
  readLines_forall (fun _ => parse_fits) (fun _ hc => absurd hc List.not_mem_nil)
    (Source.commands_eq_ok h)

theorem commands_raw :
    cs.map Command.raw =
      ((source.lines.map Text.trim).filter fun text => !text.isEmpty).map Text.trim :=
  readLines_raw (Source.commands_eq_ok h)

theorem length_commands_le : cs.length ≤ source.lines.length := by
  have lengths := congrArg List.length (commands_raw h)
  rw [List.length_map, List.length_map] at lengths
  calc cs.length = _ := lengths
    _ ≤ (source.lines.map Text.trim).length := List.length_filter_le _ _
    _ = source.lines.length := List.length_map _

theorem length_raw_lt : ∀ c ∈ cs, c.raw.length < lineLimit := by
  intro c hc
  have member : c.raw ∈ cs.map Command.raw := List.mem_map_of_mem hc
  rw [commands_raw h] at member
  obtain ⟨text, found, eq⟩ := List.mem_map.mp member
  obtain ⟨line, hline, rfl⟩ := List.mem_map.mp (List.mem_filter.mp found).1
  calc c.raw.length = line.trim.trim.length := by rw [eq]
    _ ≤ line.trim.length := Text.length_trim_le _
    _ ≤ line.length := Text.length_trim_le _
    _ < lineLimit := source.length_line_lt line hline

/-- The texts of the commands are well-formed if the whole text is: blank lines, which are lost,
hold white space only. -/
theorem isUtf8_commands : (∀ c ∈ cs, c.raw.IsUtf8) ↔ source.text.IsUtf8 := by
  rw [← Source.isUtf8_lines (Source.fault_eq_none h), ← List.forall_mem_map, commands_raw h]
  simp only [List.forall_mem_map, List.mem_filter, Text.isUtf8_trim]
  constructor
  · intro written line hl
    by_cases blank : line.trim.isEmpty
    · rw [← Text.isUtf8_trim, List.isEmpty_iff.mp blank]
      exact Text.isUtf8_nil
    · have spelled := written line.trim ⟨List.mem_map_of_mem hl, by simpa using blank⟩
      exact (Text.isUtf8_trim line).mp spelled
  · rintro all text ⟨found, -⟩
    obtain ⟨line, hl, rfl⟩ := List.mem_map.mp found
    exact (Text.isUtf8_trim line).mpr (all line hl)

theorem isInt64_line (short : IsInt64 source.text.length) : ∀ c ∈ cs, IsInt64 c.line := by
  intro c hc
  have least := (linked_commands h).nonneg c (List.mem_reverse.mpr hc)
  have below : c.line < (0 : Nat) + source.lines.length :=
    readLines_line_lt (fun _ hb => absurd hb List.not_mem_nil) (Source.commands_eq_ok h) c hc
  have lines := source.length_lines_le
  simp only [IsInt64] at short ⊢
  omega

theorem isInt64_target (short : IsInt64 source.text.length) :
    ∀ c ∈ cs, IsInt64 ((c.target?.map Command.line).getD noLine) := by
  intro c hc
  cases ht : c.target? with
  | none => decide
  | some t =>
      rcases (linked_commands h).target_mem (List.mem_reverse.mpr hc) ht with member | rfl
      · exact isInt64_line h short t (List.mem_reverse.mp member)
      · decide

theorem sized_ofCommand (short : IsInt64 source.text.length) :
    ∀ c ∈ cs, (Step.ofCommand c).Sized := by
  intro c hc
  have fits := commands_fit h c hc
  have raw := length_raw_lt h c hc
  have text := fits.length_text_le
  have millis := commands_millis_le h c hc
  have count := fits.count
  have keys := fits.keys
  simp only [lineLimit] at raw
  simp only [maxMillis] at millis count
  refine ⟨?_, ?_, ?_⟩
  · simp only [Step.numbers, Step.ofCommand, List.forall_mem_cons]
    refine ⟨isInt64_line h short c hc, ?_, ?_, isInt64_target h short c hc,
      fun _ hn => absurd hn List.not_mem_nil⟩
    · simp only [IsInt64]
      omega
    · simp only [IsInt64]
      omega
  · simp only [Step.texts, Step.ofCommand, List.forall_mem_cons]
    refine ⟨?_, ?_, ?_, fun key hk => ?_⟩
    · cases c.verb <;> decide
    · simp only [IsInt64]
      omega
    · simp only [IsInt64]
      omega
    · have short := (Key.isName_spec (fits.names key hk)).2
      simp only [IsInt64]
      omega
  · simp only [Step.ofCommand, IsInt64]
    omega

theorem sized_ofCommands (short : IsInt64 source.text.length) (name : Text) :
    (Plan.ofCommands name cs).Sized := by
  have length := length_commands_le h
  have lines := source.length_lines_le
  refine ⟨?_, ?_⟩
  · simp only [Plan.ofCommands, List.length_map, IsInt64] at short ⊢
    omega
  · simp only [Plan.ofCommands, List.forall_mem_map]
    exact sized_ofCommand h short

/-- A step is well-formed if the line it came from is. -/
theorem wellFormed_ofCommand : ∀ c ∈ cs, (Step.ofCommand c).wellFormed ↔ c.raw.IsUtf8 := by
  intro c hc
  have fits := commands_fit h c hc
  rw [Step.wellFormed_iff_isUtf8]
  simp only [Step.texts, Step.ofCommand, List.forall_mem_cons]
  refine ⟨fun all => all.2.1, fun raw => ⟨?_, raw, fits.isUtf8_text raw, fun key hk => ?_⟩⟩
  · cases c.verb <;> decide
  · exact (Key.isName_spec (fits.names key hk)).1

end

/-- Whether the plan of a loaded script is read back from its binary form. -/
theorem Plan.decode_ofCommands {source : Source} {cs : List Command}
    (h : source.commands = .ok cs) (short : IsInt64 source.text.length) (name : Text) :
    let p := Plan.ofCommands name cs
    decode p.encode =
      if source.text.IsUtf8 ∧ cs.length ≤ Cbor.maxCount ∧ ∀ c ∈ cs, c.keys.length ≤ Cbor.maxCount
      then .ok { steps := p.steps } else .error .malformed := by
  intro p
  rw [decode_encode_eq (sized_ofCommands h short name)]
  have texts : (∀ s ∈ p.steps, s.wellFormed) ↔ source.text.IsUtf8 := by
    rw [← isUtf8_commands h]
    simp only [p, Plan.ofCommands, List.forall_mem_map]
    exact forall₂_congr (wellFormed_ofCommand h)
  have keys : (∀ s ∈ p.steps, s.keys.length ≤ Cbor.maxCount) ↔
      ∀ c ∈ cs, c.keys.length ≤ Cbor.maxCount := by
    simp only [p, Plan.ofCommands, List.forall_mem_map]
    rfl
  have length : p.steps.length = cs.length := List.length_map _
  simp only [← texts, ← keys, ← length]
  rfl

namespace Script

/-- The plan of any text that is accepted, of whatever bytes, is read back from its binary form
with the same steps if the text is well-formed, has no more commands than the reader takes and no
line with more keys than that. Otherwise its binary form is malformed. -/
theorem decode_loaded {s loaded : Script} {source : Source}
    (h : s.loadFrom source = .ok loaded) (short : IsInt64 source.text.length) (name : Text) :
    let p := Plan.ofCommands name loaded.commands
    let readable := source.text.IsUtf8 ∧ loaded.commands.length ≤ Cbor.maxCount ∧
      ∀ c ∈ loaded.commands, c.keys.length ≤ Cbor.maxCount
    (readable → Plan.decode p.encode = .ok { steps := p.steps }) ∧
      (¬ readable → Plan.decode p.encode = .error .malformed) := by
  intro p readable
  obtain ⟨cs, found, rfl⟩ := loadFrom_eq_ok_iff.mp h
  have decoded := Plan.decode_ofCommands found short name
  exact ⟨fun all => decoded.trans (if_pos all), fun none => decoded.trans (if_neg none)⟩

/-- A repetition, a chord and a character of two bytes behind a carriage return and a blank
line. -/
theorem decode_loaded_chord :
    let text := utf8 "CTRL-ALT x\x0d\n \nREPEAT 2\nSTRING é"
    ∃ loaded : Script, Script.loadFrom { path := utf8 "a" } ⟨text, none⟩ = .ok loaded ∧
      loaded.commands.length = 3 ∧
      Plan.decode (Plan.ofCommands (utf8 "a") loaded.commands).encode =
        .ok { steps := (Plan.ofCommands (utf8 "a") loaded.commands).steps } := by
  intro text
  have accepted : (Script.tryLoadFrom { path := utf8 "a" } ⟨text, none⟩).2 = none := by
    decide +kernel
  have load := loadFrom_of_none accepted
  refine ⟨_, load, by decide +kernel, ?_⟩
  exact (decode_loaded load (by decide +kernel) (utf8 "a")).1 (by decide +kernel)

/-- A byte that is part of no character is accepted in a script, but its plan cannot be read. -/
theorem decode_loaded_stray :
    let text := utf8 "STRING " ++ [0xFF]
    ∃ loaded : Script, Script.loadFrom { path := [] } ⟨text, none⟩ = .ok loaded ∧
      Plan.decode (Plan.ofCommands [] loaded.commands).encode = .error .malformed := by
  intro text
  have accepted : (Script.tryLoadFrom { path := [] } ⟨text, none⟩).2 = none := by
    decide +kernel
  refine ⟨_, loadFrom_of_none accepted, ?_⟩
  decide +kernel

/-- What a load makes of a text does not depend on what the script held or did before, nor on the
host: the load fails with the same fault, or the plan has the same steps, and with them the same
binary form and the same digest. -/
theorem load_forgets_history {σ τ : Type} (host : Host σ) (host' : Host τ) {s s' : Script}
    (path : s.path = s'.path) (source : Source) (state : σ) (state' : τ) :
    let first := s.loadFromNoting host source state
    let second := s'.loadFromNoting host' source state'
    (∃ fault, first.2 = some fault ∧ second.2 = some fault) ∨
    (first.2 = none ∧ second.2 = none ∧ ∀ name name',
      let p := Plan.ofCommands name first.1.1.commands
      let q := Plan.ofCommands name' second.1.1.commands
      p.steps = q.steps ∧ p.encode = q.encode ∧ p.digest = q.digest) := by
  simp only [loadFromNoting, tryLoadFrom_eq]
  cases source.commands with
  | error fault => exact .inl ⟨fault.fault s.path, rfl, by rw [path]; rfl⟩
  | ok cs =>
      refine .inr ⟨rfl, rfl, fun name name' => ?_⟩
      have encode : (Plan.ofCommands name cs).encode = (Plan.ofCommands name' cs).encode :=
        Plan.encode_congr rfl
      exact ⟨rfl, encode, by rw [Plan.digest, Plan.digest, encode]⟩

/-- A text that starts with a repetition, loaded first of all, and again behind a load, a change
of the default delay and a load that failed: it repeats nothing in both. -/
theorem load_forgets_history_reload :
    let host := Rehearsal.host (fun (_ : Unit) _ => ((), none)) .recorded true true
    let start : Rehearsal Unit := { recorder := ⟨(), #[]⟩ }
    let fresh : Script := { path := utf8 "a" }
    let loaded := (fresh.tryLoadFrom ⟨utf8 "STRING a\nDELAY 5", none⟩).1
    let used := ({ loaded with delay := 7 }.tryLoadFrom ⟨utf8 "REPEAT 4\nREPEAT", none⟩).1
    let source : Source := ⟨utf8 "REPEAT 2\nSTRING x", none⟩
    let first := (fresh.loadFromNoting host source start).1.1
    let second := (used.loadFromNoting host source start).1.1
    used.commands ≠ fresh.commands ∧ used.delay ≠ fresh.delay ∧
      first.commands.map (fun c => c.target?.map Command.line) = [some noLine, none] ∧
      (Plan.ofCommands [] first.commands).digest = (Plan.ofCommands [] second.commands).digest := by
  intro host start fresh loaded used source first second
  have accepted : (fresh.loadFromNoting host source start).2 = none := by decide +kernel
  refine ⟨by decide +kernel, by decide +kernel, by decide +kernel, ?_⟩
  have path : fresh.path = used.path := by decide +kernel
  rcases load_forgets_history host host path source start start with ⟨fault, failed, -⟩ | same
  · rw [accepted] at failed
    cases failed
  · exact (same.2.2 [] []).2.2

end Script
end KeyScript
