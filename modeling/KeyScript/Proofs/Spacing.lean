import KeyScript.Proofs.Grammar

/-!
White space between keys. A line of keys is cut in two ways, at its first space
to see whether it begins with a key and at every blank to find its keys. So any
gap may be as wide as it likes and hold any blanks, except that the first gap has
to begin with a space.
-/

namespace KeyScript

/-- Words with gaps between them, each gap one or more blanks. -/
inductive Spaced : List Text → Text → Prop where
  | last {word : Text} (solid : word.Solid) (filled : word ≠ []) : Spaced [word] word
  | more {word rest : Text} {words : List Text} {c : Char} {gap : List Char} (solid : word.Solid)
      (filled : word ≠ []) (blank : isBlankChar c) (blanks : ∀ d ∈ gap, isBlankChar d)
      (later : Spaced words rest) :
      Spaced (word :: words) (word ++ String.utf8EncodeChar c ++ (Text.ofChars gap ++ rest))

namespace Text

theorem ofChars_cons (c : Char) (cs : List Char) :
    ofChars (c :: cs) = String.utf8EncodeChar c ++ ofChars cs := rfl

theorem fields_gap {gap : List Char} (blanks : ∀ c ∈ gap, isBlankChar c) (t : Text) :
    (ofChars gap ++ t).fields = t.fields := by
  induction gap with
  | nil => rfl
  | cons c gap ih =>
      obtain ⟨blank, others⟩ := List.forall_mem_cons.mp blanks
      have front := fields_cut blank [] (ofChars gap ++ t)
      rw [List.nil_append] at front
      rw [ofChars_cons, List.append_assoc, front, ih others]
      rfl

theorem ends_gap {gap : List Char} (blanks : ∀ c ∈ gap, isBlankChar c) (t : Text) :
    Ends (ofChars gap ++ t) ↔ t.Ends := by
  induction gap with
  | nil => rfl
  | cons c gap ih =>
      obtain ⟨blank, others⟩ := List.forall_mem_cons.mp blanks
      have front := ends_cut blank [] (ofChars gap ++ t)
      rw [List.nil_append] at front
      rw [ofChars_cons, List.append_assoc, front, ih others]

theorem trim_of_tidy {t : Text} (starts : t.Starts) (ends : t.Ends) : t.trim = t := by
  have nothing : ∀ g ∈ ([] : List Glyph), g.isBlank = true := fun g hg => by cases hg
  have around := trim_around nothing nothing (.inr ⟨starts, ends⟩)
  rwa [ofGlyphs, List.flatMap_nil, List.nil_append, List.append_nil] at around

end Text

namespace Spaced

variable {first t : Text} {rest words : List Text}

theorem fields (h : Spaced words t) : t.fields = words := by
  induction h with
  | last solid filled => exact Text.fields_of_solid solid filled
  | more solid filled blank blanks later ih =>
      rw [Text.fields_cut blank, Text.fields_of_solid solid filled, Text.fields_gap blanks, ih]
      rfl

theorem starts (h : Spaced words t) : t.Starts := by
  cases h with
  | last solid filled => exact solid.starts filled
  | more solid filled blank => exact (Text.starts_cut blank _ _).mpr (solid.starts filled)

theorem ends (h : Spaced words t) : t.Ends := by
  induction h with
  | last solid filled => exact solid.ends filled
  | more solid filled blank blanks later ih =>
      rw [Text.ends_cut blank, Text.ends_gap blanks]
      exact ih

theorem trim (h : Spaced words t) : t.trim = t :=
  Text.trim_of_tidy h.starts h.ends

theorem trim_ne_nil (h : Spaced (first :: rest) t) : t.trim ≠ [] := by
  rw [h.trim]
  rintro rfl
  cases h.fields

/-- What stands in front of the first space is the first word, or more than that: then a blank
other than a space stands behind it. -/
theorem leads_cases (h : Spaced (first :: rest) t) :
    (∃ after, Leads t first after) ∨
      (¬ ∃ after, Leads t first after) ∧
        ∃ c more after, isBlankChar c ∧ Leads t (first ++ String.utf8EncodeChar c ++ more) after := by
  have space : isBlankChar (Char.ofNat (32 : UInt8).toNat) = true := by decide
  cases h with
  | last solid filled => exact .inl ⟨[], .alone (Text.notMem_of_solid (by decide) space solid)⟩
  | @more _ later _ c gap solid filled blank =>
      have free : 32 ∉ first := Text.notMem_of_solid (by decide) space solid
      by_cases wide : c = ' '
      · subst wide
        rw [← Text.append_space]
        exact .inl ⟨_, .before free⟩
      · right
        have clear : 32 ∉ first ++ String.utf8EncodeChar c := fun found =>
          (List.mem_append.mp found).elim free (Text.notMem_encode (by decide) wide)
        obtain ⟨more, after, leads⟩ := exists_leads_append clear (Text.ofChars gap ++ later)
        refine ⟨?_, c, more, after, blank, leads⟩
        rintro ⟨_, other⟩
        have longer := congrArg List.length (other.word_unique leads)
        have one : 0 < (String.utf8EncodeChar c).length := Text.length_bytes_pos (.char c)
        simp only [List.length_append] at longer
        omega

end Spaced

/-- A blank and anything else is no key, so a word for keys is none when it goes on behind a
blank. -/
theorem Chord.not_resolves_cut {word : Text} {keys : List Text} (h : Chord word keys) {c : Char}
    (blank : isBlankChar c) (more : Text) :
    ¬ Resolves (word ++ String.utf8EncodeChar c ++ more) := by
  have other : c ≠ '-' := by
    rintro rfl
    cases blank
  have clear : hyphen ∉ String.utf8EncodeChar c := Text.notMem_encode (by decide) other
  rw [← keysOf_eq_none_iff]
  induction h with
  | @last part key free names =>
      have filled : part ≠ [] := Resolves.ne_nil ⟨[key], .last free names⟩
      have none (u : Text) : keyOfPart (part ++ String.utf8EncodeChar c ++ u) = none :=
        keyOfPart_cut blank (.inl filled)
      have front {u : Text} (hu : hyphen ∉ u) : hyphen ∉ part ++ String.utf8EncodeChar c ++ u := by
        simp only [List.mem_append, not_or]
        exact ⟨⟨free, clear⟩, hu⟩
      by_cases found : hyphen ∈ more
      · obtain ⟨u, v, rfl, hu⟩ := List.eq_append_cons_of_mem found
        rw [← List.append_assoc, keysOf_append_cons (front hu), none]
        rfl
      · rw [keysOf_of_notMem (front found), none]
        rfl
  | @more part key rest keys free names later ih =>
      have whole : part ++ hyphen :: rest ++ String.utf8EncodeChar c ++ more =
          part ++ hyphen :: (rest ++ String.utf8EncodeChar c ++ more) := by simp
      rw [whole, keysOf_append_cons free, ih]
      cases keyOfPart part <;> rfl

theorem Keyword.solid_spellings {kind : Keyword} {word : Text} (h : word ∈ kind.spellings) :
    word.Solid := by
  have solid : ∀ word ∈ kind.spellings, word.Solid := by cases kind <;> decide +kernel
  exact solid word h

section

variable {first t : Text} {rest : List Text} (spaced : Spaced (first :: rest) t)
  (other : ∀ kind : Keyword, first ∉ kind.spellings)
include spaced other

/-- A line of keys is read exactly if all of its words resolve and the first one is followed by a
space, if by anything. -/
theorem read_spaced_iff {inScript : Bool} {s : Statement} :
    Statement.read inScript t = .ok s ↔
      (∃ after, Leads t first after) ∧
        ∃ keys, Presses (first :: rest) keys ∧ s = .plain (.press keys) := by
  cases spaced.leads_cases with
  | inl narrow =>
      obtain ⟨after, leads⟩ := narrow
      rw [Statement.read_eq_ok_iff_of_other leads other, spaced.fields]
      constructor
      · exact fun h => ⟨⟨after, leads⟩, h.2⟩
      · rintro ⟨-, keys, presses, rfl⟩
        exact ⟨presses.resolves_first, keys, presses, rfl⟩
  | inr wide =>
      obtain ⟨apart, c, more, after, blank, leads⟩ := wide
      have unspelled (kind : Keyword) :
          first ++ String.utf8EncodeChar c ++ more ∉ kind.spellings := fun spelled =>
        Text.not_solid_cut blank first more (Keyword.solid_spellings spelled)
      refine iff_of_false ?_ fun h => apart h.1
      rw [Statement.read_eq_ok_iff_of_other leads unspelled, spaced.fields]
      rintro ⟨resolves, keys, presses, -⟩
      obtain ⟨_, chord⟩ := presses.resolves_first
      exact chord.not_resolves_cut blank more resolves

theorem parse_spaced_iff (line : Int) (before : Option (List Command)) (c : Command) :
    Command.parse t line before = .ok c ↔
      (∃ after, Leads t first after) ∧
        ∃ keys, Presses (first :: rest) keys ∧ c = .plain t line (.press keys) := by
  have same : t.trim = t := spaced.trim
  have press {keys : List Text} (read : Statement.read before.isSome t = .ok (.plain (.press keys))) :
      Command.parse t line before = .ok (.plain t line (.press keys)) := by
    have parsed : Command.parse t line before = .ok (.plain t.trim line (.press keys)) :=
      parse_of_read_plain spaced.trim_ne_nil (same.symm ▸ read)
    rwa [same] at parsed
  constructor
  · intro parsed
    cases read : Statement.read before.isSome t with
    | error problem =>
        rw [parse_of_read_error spaced.trim_ne_nil (same.symm ▸ read)] at parsed
        cases parsed
    | ok s =>
        obtain ⟨leads, keys, presses, rfl⟩ := (read_spaced_iff spaced other).mp read
        rw [press read] at parsed
        exact ⟨leads, keys, presses, (Except.ok.inj parsed).symm⟩
  · rintro ⟨leads, keys, presses, rfl⟩
    exact press ((read_spaced_iff spaced other).mpr ⟨leads, keys, presses, rfl⟩)

theorem parse_spaced_rejected (line : Int) (before : Option (List Command))
    (h : ¬ ((∃ after, Leads t first after) ∧ ∃ keys, Presses (first :: rest) keys)) :
    ∃ e, Command.parse t line before = .error (.rejected e) := by
  cases read : Statement.read before.isSome t with
  | error problem =>
      exact ⟨_, parse_of_read_error spaced.trim_ne_nil (spaced.trim.symm ▸ read)⟩
  | ok s =>
      obtain ⟨leads, keys, presses, -⟩ := (read_spaced_iff spaced other).mp read
      exact absurd ⟨leads, keys, presses⟩ h

end

/-- A line of keys gives the keys of its words if they all resolve and the first of them is
followed by a space or ends the line, and is refused otherwise. So two ways to space the same
words agree whenever they agree on what follows the first word. -/
theorem spacing_of_keys {first t t' : Text} {rest : List Text} (spaced : Spaced (first :: rest) t)
    (spaced' : Spaced (first :: rest) t') (other : ∀ kind : Keyword, first ∉ kind.spellings)
    (line : Int) (before : Option (List Command)) :
    (∀ c, Command.parse t line before = .ok c ↔
      (∃ after, Leads t first after) ∧
        ∃ keys, Presses (first :: rest) keys ∧ c = .plain t line (.press keys)) ∧
    (((∃ after, Leads t first after) ↔ ∃ after, Leads t' first after) →
      (∃ c c', Command.parse t line before = .ok c ∧ Command.parse t' line before = .ok c' ∧
        c.verb = c'.verb ∧ c.keys = c'.keys) ∨
      ∃ e e', Command.parse t line before = .error (.rejected e) ∧
        Command.parse t' line before = .error (.rejected e')) := by
  refine ⟨parse_spaced_iff spaced other line before, fun alike => ?_⟩
  by_cases accepted : (∃ after, Leads t first after) ∧ ∃ keys, Presses (first :: rest) keys
  · obtain ⟨leads, keys, presses⟩ := accepted
    have parsed := (parse_spaced_iff spaced other line before _).mpr ⟨leads, keys, presses, rfl⟩
    have parsed' := (parse_spaced_iff spaced' other line before _).mpr
      ⟨alike.mp leads, keys, presses, rfl⟩
    exact .inl ⟨_, _, parsed, parsed', rfl, rfl⟩
  · obtain ⟨e, refused⟩ := parse_spaced_rejected spaced other line before accepted
    rw [alike] at accepted
    obtain ⟨e', refused'⟩ := parse_spaced_rejected spaced' other line before accepted
    exact .inr ⟨e, e', refused, refused'⟩

/-- Behind the first gap, which begins with a space in both lines, any blank will do. -/
theorem spacing_of_keys_blanks :
    Spaced [utf8 "CTRL-SHIFT", utf8 "ESC"] (utf8 "CTRL-SHIFT \t\u3000ESC") ∧
      Spaced [utf8 "CTRL-SHIFT", utf8 "ESC"] (utf8 "CTRL-SHIFT ESC") ∧
      (∀ kind : Keyword, utf8 "CTRL-SHIFT" ∉ kind.spellings) ∧
      Command.parse (utf8 "CTRL-SHIFT \t\u3000ESC") 0 none =
        .ok (.plain (utf8 "CTRL-SHIFT \t\u3000ESC") 0
          (.press [utf8 "ctrl", utf8 "shift", utf8 "escape"])) := by
  have wide : Spaced [utf8 "CTRL-SHIFT", utf8 "ESC"] (utf8 "CTRL-SHIFT \t\u3000ESC") :=
    @Spaced.more _ _ _ ' ' ['\t', '\u3000'] (by decide +kernel) (by decide) (by decide)
      (List.all_eq_true.mp (by decide)) (.last (by decide +kernel) (by decide))
  have narrow : Spaced [utf8 "CTRL-SHIFT", utf8 "ESC"] (utf8 "CTRL-SHIFT ESC") :=
    @Spaced.more _ _ _ ' ' [] (by decide +kernel) (by decide) (by decide)
      (List.all_eq_true.mp (by decide)) (.last (by decide +kernel) (by decide))
  have other : ∀ kind : Keyword, utf8 "CTRL-SHIFT" ∉ kind.spellings :=
    keyword?_canonical_eq_none_iff.mp (by decide +kernel)
  refine ⟨wide, narrow, other, ((spacing_of_keys wide narrow other 0 none).1 _).mpr ⟨?_, ?_⟩⟩
  · exact ⟨utf8 "\t\u3000ESC", leads_iff.mpr (by decide +kernel)⟩
  · exact ⟨_, readKeys_eq_ok_iff.mp (by decide +kernel), rfl⟩

/-- A tab behind the first key makes the whole line its first word, which names no key. -/
theorem tab_behind_first_key :
    Spaced [utf8 "CTRL", utf8 "ALT"] (utf8 "CTRL ALT") ∧
      Spaced [utf8 "CTRL", utf8 "ALT"] (utf8 "CTRL\tALT") ∧
      (∀ kind : Keyword, utf8 "CTRL" ∉ kind.spellings) ∧
      Command.parse (utf8 "CTRL ALT") 0 (some []) =
        .ok (.plain (utf8 "CTRL ALT") 0 (.press [utf8 "ctrl", utf8 "alt"])) ∧
      Command.parse (utf8 "CTRL\tALT") 0 (some []) =
        .error (.rejected ⟨0, utf8 "CTRL\tALT", .unknownWord (utf8 "CTRL\tALT")⟩) := by
  have gap {c : Char} (blank : isBlankChar c) : Spaced [utf8 "CTRL", utf8 "ALT"]
      (utf8 "CTRL" ++ String.utf8EncodeChar c ++ (Text.ofChars [] ++ utf8 "ALT")) :=
    .more (by decide +kernel) (by decide) blank (List.all_eq_true.mp (by decide))
      (.last (by decide +kernel) (by decide))
  refine ⟨@gap ' ' (by decide), @gap '\t' (by decide), ?_, by decide +kernel⟩
  exact keyword?_canonical_eq_none_iff.mp (by decide +kernel)

end KeyScript
