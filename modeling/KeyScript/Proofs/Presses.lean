import KeyScript.Keyboard.Xdotool
import KeyScript.Proofs.Spelling

/-!
What a line of keys presses. The line has a field, since something is left of it
when it is trimmed, so at least one key is pressed; and no key is written in a
way that could be taken for two keys or for an option.
-/

namespace KeyScript
namespace Text

/-- A byte that is stray where more bytes follow is stray where fewer do. -/
theorem read_of_stray {a b : UInt8} {rest more : Text}
    (h : (Glyph.read a (rest ++ more)).1 = .stray b) : (Glyph.read a rest).1 = .stray b := by
  cases hg : (Glyph.read a rest).1 with
  | stray b' => rw [(drop_of_stray h).1, (drop_of_stray hg).1]
  | char c =>
      -- the character would be read there too
      have whole := Glyph.bytes_read a rest
      rw [hg] at whole
      obtain ⟨a', tail, encode, read⟩ :=
        Glyph.read_encode c (rest.drop (Glyph.read a rest).2 ++ more)
      rw [Glyph.bytes, encode, List.cons_append] at whole
      obtain ⟨rfl, tail_eq⟩ := List.cons.inj whole
      rw [← tail_eq, List.append_assoc, read] at h
      cases h

/-- A text that is cut between two glyphs has the glyphs in front of the cut. -/
theorem glyphs_of_append {t : Text} {gs hs : List Glyph} (h : t.glyphs = gs ++ hs) :
    (ofGlyphs gs).glyphs = gs := by
  induction gs generalizing t with
  | nil => rfl
  | cons g gs ih =>
      cases t with
      | nil => cases h
      | cons a rest =>
          rw [glyphs_cons] at h
          have first : (Glyph.read a rest).1 = g := (List.cons.inj h).1
          have later : glyphs (rest.drop (Glyph.read a rest).2) = gs ++ hs := (List.cons.inj h).2
          have behind : rest.drop (Glyph.read a rest).2 = ofGlyphs gs ++ ofGlyphs hs := by
            rw [← ofGlyphs_glyphs (rest.drop _), later, ofGlyphs, List.flatMap_append]
            rfl
          cases g with
          | char c =>
              have glyphs := glyphs_encode c (ofGlyphs gs)
              rw [ih later] at glyphs
              exact glyphs
          | stray b =>
              -- no character begins here, not even with fewer bytes behind
              obtain ⟨rfl, same⟩ := drop_of_stray first
              rw [same] at behind
              rw [behind] at first
              have alone := read_of_stray first
              have glyphs := glyphs_cons b (ofGlyphs gs)
              rw [alone, (drop_of_stray alone).2, ih later] at glyphs
              exact glyphs

theorem exists_glyphs_eq {t : Text} {gs hs : List Glyph} (h : t.glyphs = gs ++ hs) :
    ∃ rest : Text, rest.glyphs = hs := by
  induction gs generalizing t with
  | nil => exact ⟨t, h⟩
  | cons g gs ih =>
      cases t with
      | nil => cases h
      | cons a rest =>
          rw [glyphs_cons] at h
          exact ih (List.cons.inj h).2

theorem glyphs_trim (t : Text) :
    t.trim.glyphs = dropEndWhile Glyph.isBlank (t.glyphs.dropWhile Glyph.isBlank) := by
  let rest := t.glyphs.dropWhile Glyph.isBlank
  have front : t.glyphs = t.glyphs.takeWhile Glyph.isBlank ++ rest :=
    List.takeWhile_append_dropWhile.symm
  have back : rest =
      dropEndWhile Glyph.isBlank rest ++ (rest.reverse.takeWhile Glyph.isBlank).reverse := by
    rw [dropEndWhile, ← List.reverse_append, List.takeWhile_append_dropWhile, List.reverse_reverse]
  obtain ⟨behind, glyphs⟩ := exists_glyphs_eq front
  exact glyphs_of_append (glyphs.trans back)

theorem dropWhile_of_head {α : Type} {p : α → Bool} {l : List α}
    (h : ∀ a, l.head? = some a → p a = false) : l.dropWhile p = l := by
  cases l with
  | nil => rfl
  | cons a rest => rw [List.dropWhile_cons_of_neg (by simp [h a rfl])]

theorem head_dropWhile {α : Type} {p : α → Bool} {l : List α} {a : α}
    (h : (l.dropWhile p).head? = some a) : p a = false := by
  have first := List.head?_dropWhile_not p l
  rwa [h] at first

/-- A text that is trimmed has nothing more to trim. -/
theorem trim_trim (t : Text) : t.trim.trim = t.trim := by
  let rest := t.glyphs.dropWhile Glyph.isBlank
  let kept := (rest.reverse.dropWhile Glyph.isBlank).reverse
  have split : rest = kept ++ (rest.reverse.takeWhile Glyph.isBlank).reverse := by
    rw [← List.reverse_append, List.takeWhile_append_dropWhile, List.reverse_reverse]
  have front : kept.dropWhile Glyph.isBlank = kept := by
    apply dropWhile_of_head
    intro g first
    apply head_dropWhile (l := t.glyphs)
    change rest.head? = some g
    rw [split, List.head?_append, first]
    rfl
  have back : kept.reverse.dropWhile Glyph.isBlank = kept.reverse := by
    rw [List.reverse_reverse]
    exact dropWhile_of_head fun g first => head_dropWhile first
  have glyphs : t.trim.glyphs = kept := glyphs_trim t
  calc t.trim.trim
      = ofGlyphs (dropEndWhile Glyph.isBlank (t.trim.glyphs.dropWhile Glyph.isBlank)) := rfl
    _ = ofGlyphs kept := by rw [glyphs, front, dropEndWhile, back, List.reverse_reverse]

/-- What is left of a text that is trimmed is not all blank. -/
theorem exists_written_of_trim {t : Text} (h : t.trim ≠ []) :
    ∃ g ∈ t.trim.glyphs, g.isBlank = false := by
  let rest := (t.glyphs.dropWhile Glyph.isBlank).reverse.dropWhile Glyph.isBlank
  have glyphs : t.trim.glyphs = rest.reverse := glyphs_trim t
  have filled : rest ≠ [] := by
    intro empty
    apply h
    rw [← ofGlyphs_glyphs t.trim, glyphs, empty]
    rfl
  refine ⟨rest.head filled, ?_, List.head_dropWhile_not Glyph.isBlank filled⟩
  rw [glyphs, List.mem_reverse]
  exact List.head_mem filled

theorem exists_filled_splitAt {α : Type} {p : α → Bool} {part l : List α}
    (h : part ≠ [] ∨ ∃ a ∈ l, p a = false) : ∃ piece ∈ splitAt p [] part l, piece ≠ [] := by
  induction l generalizing part with
  | nil =>
      have filled : part ≠ [] := h.resolve_right fun ⟨a, ha, _⟩ => absurd ha List.not_mem_nil
      exact ⟨part.reverse, List.mem_singleton_self _, by simpa using filled⟩
  | cons a l ih =>
      by_cases blank : p a
      · rw [splitAt_cons_of_pos p blank]
        rcases h with filled | ⟨b, hb, written⟩
        · exact ⟨part.reverse, List.mem_cons_self, by simpa using filled⟩
        · rcases List.mem_cons.mp hb with rfl | hb
          · rw [written] at blank
            cases blank
          · have later : ([] : List α) ≠ [] ∨ ∃ a ∈ l, p a = false := .inr ⟨b, hb, written⟩
            obtain ⟨piece, member, filled⟩ := ih later
            exact ⟨piece, List.mem_cons_of_mem _ member, filled⟩
      · rw [splitAt_cons_of_neg p blank]
        exact ih (.inl (List.cons_ne_nil _ _))

theorem fields_ne_nil_of_trim {t : Text} (h : t.trim ≠ []) : t.trim.fields ≠ [] := by
  obtain ⟨g, hg, written⟩ := exists_written_of_trim h
  have some : ([] : List Glyph) ≠ [] ∨ ∃ g ∈ t.trim.glyphs, g.isBlank = false :=
    .inr ⟨g, hg, written⟩
  obtain ⟨piece, member, filled⟩ := exists_filled_splitAt some
  have kept : piece ∈
      (splitAt Glyph.isBlank [] [] t.trim.glyphs).filter fun part => !part.isEmpty :=
    List.mem_filter.mpr ⟨member, by simpa using filled⟩
  exact List.ne_nil_of_mem (List.mem_map_of_mem kept)

theorem splitAt_ne_nil {α : Type} (p : α → Bool) (part l : List α) : splitAt p [] part l ≠ [] := by
  induction l generalizing part with
  | nil => exact List.cons_ne_nil _ _
  | cons a l ih =>
      by_cases h : p a
      · rw [splitAt_cons_of_pos p h]
        exact List.cons_ne_nil _ _
      · rw [splitAt_cons_of_neg p h]
        exact ih (a :: part)

theorem splitAt_append {sep : UInt8} {a : Text} (free : sep ∉ a) (part l : Text) :
    splitAt (· == sep) [] part (a ++ l) = splitAt (· == sep) [] (a.reverse ++ part) l := by
  induction a generalizing part with
  | nil => rfl
  | cons b a ih =>
      have other : ¬ (b == sep) = true := by
        rw [beq_iff_eq]
        rintro rfl
        exact free List.mem_cons_self
      rw [List.cons_append, splitAt_cons_of_neg (· == sep) other,
        ih fun h => free (List.mem_cons_of_mem _ h), List.reverse_cons, List.append_assoc]
      rfl

theorem split_of_notMem {sep : UInt8} {a : Text} (free : sep ∉ a) : a.split sep = [a] := by
  have whole := splitAt_append free [] []
  rw [List.append_nil, List.append_nil, splitAt_nil, List.reverse_reverse] at whole
  exact whole

theorem split_append_cons {sep : UInt8} {a : Text} (free : sep ∉ a) (l : Text) :
    (a ++ sep :: l).split sep = a :: l.split sep := by
  have first := splitAt_append free [] (sep :: l)
  rw [splitAt_cons_of_pos (· == sep) (beq_self_eq_true sep), List.append_nil,
    List.reverse_reverse] at first
  exact first

/-- A text is free of a separator, or has one behind a part that is free of it. -/
theorem split_induction (sep : UInt8) {P : Text → Prop} (part : ∀ t, sep ∉ t → P t)
    (cut : ∀ s t, sep ∉ s → P t → P (s ++ sep :: t)) (t : Text) : P t := by
  induction hl : t.length using Nat.strongRecOn generalizing t with
  | _ n ih =>
      by_cases found : sep ∈ t
      · obtain ⟨s, u, rfl, free⟩ := List.eq_append_cons_of_mem found
        have shorter : u.length < n := by
          simp only [← hl, List.length_append, List.length_cons]
          omega
        exact cut s u free (ih _ shorter u rfl)
      · exact part t found

theorem notMem_of_mem_split {sep : UInt8} {t piece : Text} (h : piece ∈ t.split sep) :
    sep ∉ piece := by
  induction t using split_induction sep with
  | part t free =>
      rw [split_of_notMem free, List.mem_singleton] at h
      exact h ▸ free
  | cut s t free ih =>
      rw [split_append_cons free] at h
      cases List.mem_cons.mp h with
      | inl first => exact first ▸ free
      | inr later => exact ih later

/-- Parts that are free of a separator are found again between separators. -/
theorem split_join {sep : UInt8} {parts : List Text} (filled : parts ≠ [])
    (free : ∀ part ∈ parts, sep ∉ part) : (join [sep] parts).split sep = parts := by
  induction parts with
  | nil => exact absurd rfl filled
  | cons part rest ih =>
      have first : sep ∉ part := free part List.mem_cons_self
      cases rest with
      | nil =>
          rw [join, List.intercalate_singleton]
          exact split_of_notMem first
      | cons next rest =>
          have later := ih (List.cons_ne_nil _ _) (List.forall_mem_cons.mp free).2
          rw [join, List.intercalate_cons_cons, List.append_assoc, List.singleton_append,
            split_append_cons first]
          exact congrArg (part :: ·) later

end Text

theorem split_chord {parts : List Text} (filled : parts ≠ []) (free : ∀ part ∈ parts, 43 ∉ part) :
    (Action.chord parts).split 43 = parts := by
  have plus : utf8 "+" = [43] := by decide
  rw [Action.chord, plus]
  exact Text.split_join filled free

theorem head?_chord {part : Text} (h : part ≠ []) (rest : List Text) :
    (Action.chord (part :: rest)).head? = part.head? := by
  rw [Key.chord_cons]
  cases part with
  | nil => exact absurd rfl h
  | cons b part => rfl

theorem mem_of_lookup {table : List (Text × Text)} {word target : Text}
    (h : table.lookup word = some target) : (word, target) ∈ table := by
  obtain ⟨front, back, split, -⟩ := List.lookup_eq_some_iff.mp h
  exact split ▸ List.mem_append_right _ List.mem_cons_self

namespace Key

/-- A word that stands for one key in a chord, and is not taken for an option. -/
def Spelled (word : Text) : Prop :=
  word ≠ [] ∧ 43 ∉ word ∧ word.head? ≠ some 45

instance (word : Text) : Decidable (Spelled word) :=
  inferInstanceAs (Decidable (_ ∧ _))

theorem Spelled.append {front tail : Text} (h : Spelled front) (free : 43 ∉ tail) :
    Spelled (front ++ tail) := by
  obtain ⟨filled, frontFree, noOption⟩ := h
  obtain ⟨b, front, rfl⟩ := List.exists_cons_of_ne_nil filled
  refine ⟨List.cons_ne_nil _ _, ?_, noOption⟩
  intro found
  exact (List.mem_append.mp found).elim frontFree free

theorem functionKeysym_spelled {name symbol : Text} (free : 43 ∉ name)
    (h : functionKeysym name = some symbol) : Spelled symbol := by
  have mark : Spelled (utf8 "F") := by decide
  simp only [functionKeysym] at h
  repeat' split at h
  all_goals cases h
  exact mark.append fun found => free (List.mem_cons_of_mem _ found)

theorem padKeysym_spelled {name symbol : Text} (free : 43 ∉ name)
    (h : padKeysym name = some symbol) : Spelled symbol := by
  have mark : Spelled (utf8 "KP_") := by decide
  simp only [padKeysym] at h
  repeat' split at h
  all_goals cases h
  refine mark.append fun found => free ?_
  rw [List.mem_singleton.mp found]
  simp

/-- The two names that would be misread have keysyms of their own. -/
theorem keysym_spelled {key : Text} (h : isName key) : Spelled (keysym key) := by
  have listed : ∀ pair ∈ keysyms, Spelled pair.2 := by decide +kernel
  have named : ∀ name ∈ names, Spelled name ∨ name = [43] ∨ name = [45] := by decide +kernel
  rcases named key (List.contains_iff_mem.mp h) with spelled | rfl | rfl
  · rw [keysym]
    cases found : keysyms.lookup key with
    | some symbol => exact listed (key, symbol) (mem_of_lookup found)
    | none =>
        cases function : functionKeysym key with
        | some symbol => exact functionKeysym_spelled spelled.2.1 function
        | none =>
            cases pad : padKeysym key with
            | some symbol => exact padKeysym_spelled spelled.2.1 pad
            | none => exact spelled
  · decide +kernel
  · decide +kernel

end Key

/-- An action that a line can ask for: keys have names, and there is at least one. -/
def Action.Named : Action → Prop
  | .hotkey keys => keys ≠ [] ∧ ∀ key ∈ keys, Key.isName key
  | .type _ => True

theorem keysOf_ne_nil {word : Text} {keys : List Text} (h : keysOf word = some keys) :
    keys ≠ [] := by
  rintro rfl
  have parts : (word.split hyphen).map keyOfPart = [] := mapM_id_eq_some h
  exact Text.splitAt_ne_nil _ [] word (List.map_eq_nil_iff.mp parts)

theorem readKeys_ne_nil {words keys : List Text} (filled : words ≠ [])
    (h : readKeys words = .ok keys) : keys ≠ [] := by
  cases words with
  | nil => exact absurd rfl filled
  | cons word words =>
      obtain ⟨first, more, hfirst, -, rfl⟩ := readKeys_cons h
      exact List.append_ne_nil_of_left_ne_nil (keysOf_ne_nil hfirst) _

theorem read_press {inScript : Bool} {t : Text} {keys : List Text}
    (h : Statement.read inScript t = .ok (.plain (.press keys))) :
    readKeys t.fields = .ok keys := by
  simp only [Statement.read] at h
  repeat' split at h
  all_goals cases h
  assumption

theorem parse_trim_ne_nil {raw : Text} {line : Int} {before : Option (List Command)} {c : Command}
    (h : Command.parse raw line before = .ok c) : raw.trim ≠ [] := by
  intro empty
  simp [Command.parse, empty] at h

namespace Command

/-- A command all of whose actions a line can ask for; a repetition has those of its target. -/
def Named : Command → Prop
  | .plain _ _ (.press keys) => Action.Named (.hotkey keys)
  | .plain _ _ _ => True
  | .again _ _ _ target => target.Named

end Command

theorem parse_named {raw : Text} {line : Int} {recent : List Command} {c : Command}
    (before : ∀ b ∈ recent, b.Named) (h : Command.parse raw line (some recent) = .ok c) :
    c.Named := by
  obtain ⟨deed, read, rfl⟩ | ⟨count, -, rfl⟩ := parse_cases h
  · cases deed with
    | press keys =>
        have keysRead := read_press read
        have fields := Text.fields_ne_nil_of_trim (parse_trim_ne_nil h)
        exact ⟨readKeys_ne_nil fields keysRead, (readKeys_spec keysRead).2⟩
    | comment | delay | setDefaultDelay | typeText => trivial
  · cases found : recent.find? fun b => b.line < line with
    | none => trivial
    | some b => exact before b (List.mem_of_find?_eq_some found)

theorem commands_named {source : Source} {cs : List Command} (h : source.commands = .ok cs) :
    ∀ c ∈ cs, c.Named :=
  readLines_forall parse_named (fun _ hc => absurd hc List.not_mem_nil)
    (Source.commands_eq_ok h)

end KeyScript
