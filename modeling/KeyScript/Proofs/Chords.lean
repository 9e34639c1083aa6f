import KeyScript.Proofs.Spacing

/-!
Chords put together. The parts of a chord are looked up one by one, so a hyphen
between two chords makes one chord with the keys of both. A line of keys presses
all of its words together, and a chord of the same words presses the same keys,
although the one is read field by field and the other as a single word.
-/

namespace KeyScript
namespace Text

theorem join_cons_cons (sep : UInt8) (a b : Text) (rest : List Text) :
    join [sep] (a :: b :: rest) = a ++ sep :: join [sep] (b :: rest) := by
  rw [join, List.intercalate_cons_cons, List.append_assoc, List.singleton_append]
  rfl

theorem join_singleton (sep a : Text) : join sep [a] = a :=
  List.intercalate_singleton

theorem solid_join {sep : UInt8} (ascii : sep.toNat < 128)
    (written : isBlankChar (Char.ofNat sep.toNat) = false) {first : Text} {rest : List Text}
    (solid : ∀ word ∈ first :: rest, word.Solid) : (join [sep] (first :: rest)).Solid := by
  induction rest generalizing first with
  | nil =>
      rw [join_singleton]
      exact solid first List.mem_cons_self
  | cons next rest ih =>
      obtain ⟨front, later⟩ := List.forall_mem_cons.mp solid
      rw [join_cons_cons, solid_cut ascii written]
      exact ⟨front, ih later⟩

end Text

theorem keysOfParts_cut (a b : Text) :
    keysOfParts (a ++ hyphen :: b) = keysOfParts a ++ keysOfParts b := by
  rw [keysOfParts, Text.split_cut, List.map_append]
  rfl

theorem keysOfParts_join (first : Text) (rest : List Text) :
    keysOfParts (Text.join [hyphen] (first :: rest)) = (first :: rest).flatMap keysOfParts := by
  induction rest generalizing first with
  | nil => rw [Text.join_singleton, List.flatMap_singleton]
  | cons next rest ih =>
      rw [Text.join_cons_cons, keysOfParts_cut, ih]
      rfl

theorem mapM_id_eq_some_iff {α : Type} {l : List (Option α)} {all : List α} :
    l.mapM id = some all ↔ l = all.map some := by
  refine ⟨mapM_id_eq_some, ?_⟩
  rintro rfl
  induction all with
  | nil => rfl
  | cons a all ih => simp [ih]

theorem exists_eq_map_some_iff {α : Type} {l : List (Option α)} :
    (∃ all : List α, l = all.map some) ↔ none ∉ l := by
  constructor
  · rintro ⟨all, rfl⟩
    simp
  · intro free
    induction l with
    | nil => exact ⟨[], rfl⟩
    | cons o l ih =>
        obtain ⟨head, tail⟩ := not_or.mp (List.mem_cons.not.mp free)
        obtain ⟨all, rfl⟩ := ih tail
        obtain ⟨a, rfl⟩ := Option.ne_none_iff_exists'.mp (Ne.symm head)
        exact ⟨a :: all, rfl⟩

theorem chord_iff {word : Text} {keys : List Text} :
    Chord word keys ↔ keysOfParts word = keys.map some := by
  rw [← keysOf_eq_some_iff, keysOf, mapM_id_eq_some_iff]

theorem presses_iff {words keys : List Text} :
    Presses words keys ↔ words.flatMap keysOfParts = keys.map some := by
  induction words generalizing keys with
  | nil =>
      constructor
      · intro presses
        cases presses
        rfl
      · intro none
        cases keys with
        | nil => exact .nil
        | cons key keys => cases none
  | cons word words ih =>
      rw [List.flatMap_cons]
      constructor
      · intro presses
        cases presses with
        | cons chord later => rw [chord_iff.mp chord, ih.mp later, List.map_append]
      · intro parts
        obtain ⟨front, back, rfl, first, later⟩ := List.map_eq_append_iff.mp parts.symm
        exact .cons (chord_iff.mpr first.symm) (ih.mpr later.symm)

theorem Keyword.hyphen_notMem_spellings {kind : Keyword} {word : Text}
    (h : word ∈ kind.spellings) : hyphen ∉ word := by
  have free : ∀ word ∈ kind.spellings, hyphen ∉ word := by cases kind <;> decide +kernel
  exact free word h

/-- Several words joined by hyphens are no verb, whatever the first of them is. -/
theorem join_notMem_spellings {first : Text} {rest : List Text}
    (other : ∀ kind : Keyword, first ∉ kind.spellings) (kind : Keyword) :
    Text.join [hyphen] (first :: rest) ∉ kind.spellings := by
  cases rest with
  | nil =>
      rw [Text.join_singleton]
      exact other kind
  | cons next rest =>
      rw [Text.join_cons_cons]
      intro spelled
      exact Keyword.hyphen_notMem_spellings spelled (by simp)

theorem spaced_join {first : Text} {rest : List Text}
    (words : ∀ word ∈ first :: rest, word.Solid ∧ word ≠ []) :
    Spaced (first :: rest) (Text.join [32] (first :: rest)) := by
  induction rest generalizing first with
  | nil =>
      obtain ⟨solid, filled⟩ := words first List.mem_cons_self
      rw [Text.join_singleton]
      exact .last solid filled
  | cons next rest ih =>
      obtain ⟨⟨solid, filled⟩, later⟩ := List.forall_mem_cons.mp words
      rw [Text.join_cons_cons, Text.append_space]
      have gap : ∀ c ∈ ([] : List Char), isBlankChar c := fun _ hc => absurd hc List.not_mem_nil
      exact .more solid filled (by decide) gap (ih later)

section

variable {first : Text} {rest : List Text}
  (words : ∀ word ∈ first :: rest, word.Solid ∧ word ≠ [])
  (other : ∀ kind : Keyword, first ∉ kind.spellings)
  (line : Int) (before : Option (List Command)) (c : Command)
include words other

theorem parse_join_space_iff :
    Command.parse (Text.join [32] (first :: rest)) line before = .ok c ↔
      ∃ keys, (first :: rest).flatMap keysOfParts = keys.map some ∧
        c = .plain (Text.join [32] (first :: rest)) line (.press keys) := by
  have free : 32 ∉ first :=
    Text.notMem_of_solid (by decide) (by decide) (words first List.mem_cons_self).1
  have leads : ∃ after, Leads (Text.join [32] (first :: rest)) first after := by
    cases rest with
    | nil =>
        rw [Text.join_singleton]
        exact ⟨[], .alone free⟩
    | cons next rest =>
        rw [Text.join_cons_cons]
        exact ⟨_, .before free⟩
  rw [parse_spaced_iff (spaced_join words) other, and_iff_right leads]
  simp only [presses_iff]

theorem parse_join_hyphen_iff :
    Command.parse (Text.join [hyphen] (first :: rest)) line before = .ok c ↔
      ∃ keys, (first :: rest).flatMap keysOfParts = keys.map some ∧
        c = .plain (Text.join [hyphen] (first :: rest)) line (.press keys) := by
  have solid : (Text.join [hyphen] (first :: rest)).Solid :=
    Text.solid_join (by decide) (by decide) fun word hw => (words word hw).1
  have filled : Text.join [hyphen] (first :: rest) ≠ [] := by
    cases rest with
    | nil =>
        rw [Text.join_singleton]
        exact (words first List.mem_cons_self).2
    | cons next rest =>
        rw [Text.join_cons_cons]
        simp
  have leads : ∃ after, Leads (Text.join [hyphen] (first :: rest)) _ after :=
    ⟨[], .alone (Text.notMem_of_solid (by decide) (by decide) solid)⟩
  rw [parse_spaced_iff (.last solid filled) (join_notMem_spellings other), and_iff_right leads]
  simp only [presses_iff, List.flatMap_singleton, keysOfParts_join]

end

theorem exists_press_iff {parts : List (Option Text)} {result : Except ParseFault Command}
    {press : List Text → Command}
    (h : ∀ c, result = .ok c ↔ ∃ keys, parts = keys.map some ∧ c = press keys) :
    (∃ c, result = .ok c) ↔ none ∉ parts := by
  rw [← exists_eq_map_some_iff, exists_congr h, exists_comm]
  simp only [exists_and_left, exists_eq, and_true]

/-- A hyphen between two chords makes one of both. Words without blanks of which the first is no
verb are therefore read alike whether spaces or hyphens stand between them: when every part of
every word is a key, both lines press these keys in order, and otherwise both are refused. -/
theorem chords_compose :
    (∀ a b : Text, keysOfParts (a ++ hyphen :: b) = keysOfParts a ++ keysOfParts b) ∧
    ∀ (first : Text) (rest : List Text), (∀ word ∈ first :: rest, word.Solid ∧ word ≠ []) →
      isVerbWord (canonical first) = false → ∀ (line : Int) (before : Option (List Command)),
        let words := first :: rest
        let spaced := Command.parse (Text.join [32] words) line before
        let joined := Command.parse (Text.join [hyphen] words) line before
        ((∃ c, spaced = .ok c) ↔ ∃ c, joined = .ok c) ∧
        ((∃ c, joined = .ok c) ↔ none ∉ words.flatMap keysOfParts) ∧
        ∀ c c', spaced = .ok c → joined = .ok c' →
          c.verb = .press ∧ c'.verb = .press ∧ c.keys = c'.keys ∧
            c.keys.map some = words.flatMap keysOfParts := by
  refine ⟨keysOfParts_cut, ?_⟩
  intro first rest clean verb line before words spaced joined
  have other := keyword?_canonical_eq_none_iff.mp (keyword?_eq_none verb)
  have spacedOk (c : Command) := parse_join_space_iff clean other line before c
  have joinedOk (c : Command) := parse_join_hyphen_iff clean other line before c
  have spacedFound := exists_press_iff spacedOk
  have joinedFound := exists_press_iff joinedOk
  refine ⟨spacedFound.trans joinedFound.symm, joinedFound, ?_⟩
  intro c c' parsed parsed'
  obtain ⟨keys, parts, rfl⟩ := (spacedOk c).mp parsed
  obtain ⟨keys', parts', rfl⟩ := (joinedOk c').mp parsed'
  have same : keys = keys' :=
    (List.map_inj_right fun _ _ => Option.some.inj).mp (parts.symm.trans parts')
  exact ⟨rfl, rfl, same, parts.symm⟩

theorem chords_compose_three :
    let words : List Text := [utf8 "CONTROL-SHIFT", utf8 "ESC", utf8 "a"]
    ∃ c c', Command.parse (Text.join [32] words) 4 none = .ok c ∧
      Command.parse (Text.join [hyphen] words) 4 none = .ok c' ∧ c.keys = c'.keys := by
  intro words
  have clean : ∀ word ∈ words, word.Solid ∧ word ≠ [] := by decide +kernel
  obtain ⟨agree, found, same⟩ := chords_compose.2 _ _ clean (by decide +kernel) 4 none
  obtain ⟨c', joined⟩ := found.mpr (by decide +kernel)
  obtain ⟨c, spaced⟩ := agree.mpr ⟨c', joined⟩
  exact ⟨c, c', spaced, joined, (same c c' spaced joined).2.2.1⟩

end KeyScript
