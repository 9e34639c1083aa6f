import KeyScript.Proofs.Presses

/-!
The words of a line: what stands between blanks. A text has no blank in it, or it
is cut at its first one, and everything about fields follows from the two cases.
No blank is inside the name of a key unless it is the whole of it, so the keys of
a field have no blank either.
-/

namespace KeyScript

theorem Glyph.isTail_head_encode (c : Char) (rest : Text) (b : UInt8)
    (h : (String.utf8EncodeChar c ++ rest).head? = some b) : isTail b = false := by
  rcases char_cases c with ⟨a, ha, rfl⟩ | ⟨a, _, ha, hb, rfl⟩ | ⟨a, _, _, ha, hc, rfl⟩ |
    ⟨a, _, _, _, ha, hc, hd, rfl⟩
  · rw [encode_one ha] at h
    cases h
    rw [← Bool.not_eq_true, isTail_iff]
    omega
  · rw [encode_two ha hb] at h
    cases h
    rw [← Bool.not_eq_true, isTail_iff]
    omega
  · rw [encode_three ha hc] at h
    cases h
    rw [secondOfThree_iff] at ha
    rw [← Bool.not_eq_true, isTail_iff]
    omega
  · rw [encode_four ha hc hd] at h
    cases h
    rw [secondOfFour_iff] at ha
    rw [← Bool.not_eq_true, isTail_iff]
    omega

namespace Text

theorem glyphs_cut (s : Text) (c : Char) (t : Text) :
    glyphs (s ++ String.utf8EncodeChar c ++ t) = s.glyphs ++ .char c :: t.glyphs := by
  rw [List.append_assoc, glyphs_append (Glyph.isTail_head_encode c t), glyphs_encode]

/-- A space, as the character that it is. -/
theorem append_space (s t : Text) : s ++ 32 :: t = s ++ String.utf8EncodeChar ' ' ++ t := by
  have space : String.utf8EncodeChar ' ' = [32] := by decide
  rw [space, List.append_assoc, List.singleton_append]

theorem glyphs_cut_ascii {b : UInt8} (ascii : b.toNat < 128) (s t : Text) :
    glyphs (s ++ b :: t) = s.glyphs ++ .char (Char.ofNat b.toNat) :: t.glyphs := by
  have cut := glyphs_cut s (Char.ofNat b.toNat) t
  rwa [Glyph.encode_one ascii, List.append_assoc, List.singleton_append] at cut

/-- A byte of ASCII is found in no other character than the one that it is. -/
theorem notMem_encode {b : UInt8} (ascii : b.toNat < 128) {c : Char}
    (other : c ≠ Char.ofNat b.toNat) : b ∉ String.utf8EncodeChar c := by
  intro found
  have glyphs := glyphs_cut_ascii ascii [] []
  rw [List.nil_append, ← Glyph.encode_of_ascii ascii found] at glyphs
  have same := (List.append_nil (String.utf8EncodeChar c) ▸ glyphs_encode c []).symm.trans glyphs
  exact other (Glyph.char.inj (List.cons.inj same).1)

/-- No white space anywhere. -/
def Solid (t : Text) : Prop :=
  ∀ g ∈ t.glyphs, g.isBlank = false

instance (t : Text) : Decidable t.Solid :=
  inferInstanceAs (Decidable (∀ g ∈ t.glyphs, g.isBlank = false))

theorem solid_cut {b : UInt8} (ascii : b.toNat < 128)
    (written : isBlankChar (Char.ofNat b.toNat) = false) (s t : Text) :
    Solid (s ++ b :: t) ↔ s.Solid ∧ t.Solid := by
  rw [Solid, glyphs_cut_ascii ascii, List.forall_mem_append, List.forall_mem_cons]
  exact and_congr Iff.rfl (and_iff_right written)

theorem not_solid_cut {c : Char} (blank : isBlankChar c) (s t : Text) :
    ¬ Solid (s ++ String.utf8EncodeChar c ++ t) := by
  intro solid
  rw [Solid, glyphs_cut] at solid
  have written : isBlankChar c = false := solid (.char c) (by simp)
  rw [blank] at written
  cases written

theorem notMem_of_solid {b : UInt8} (ascii : b.toNat < 128)
    (blank : isBlankChar (Char.ofNat b.toNat)) {t : Text} (h : t.Solid) : b ∉ t := by
  intro found
  obtain ⟨s, u, rfl⟩ := List.append_of_mem found
  have cut := not_solid_cut blank s u
  rw [Glyph.encode_one ascii, List.append_assoc, List.singleton_append] at cut
  exact cut h

theorem exists_cut_of_not_solid {t : Text} (h : ¬ t.Solid) : ∃ s c u, Solid s ∧
    isBlankChar c ∧ t = s ++ String.utf8EncodeChar c ++ u := by
  let front := t.glyphs.takeWhile fun g => !g.isBlank
  have written : ∀ g ∈ front, g.isBlank = false := by
    intro g hg
    simpa using List.all_eq_true.mp List.all_takeWhile g hg
  have split : front ++ t.glyphs.dropWhile (fun g => !g.isBlank) = t.glyphs :=
    List.takeWhile_append_dropWhile
  cases behind : t.glyphs.dropWhile fun g => !g.isBlank with
  | nil =>
      rw [behind, List.append_nil] at split
      rw [split] at written
      exact absurd written h
  | cons g back =>
      have blank : g.isBlank = true := by
        have first := List.head?_dropWhile_not (fun g : Glyph => !g.isBlank) t.glyphs
        simpa [behind] using first
      cases g with
      | stray b => cases blank
      | char c =>
          rw [behind] at split
          refine ⟨ofGlyphs front, c, ofGlyphs back, ?_, blank, ?_⟩
          · rw [Solid, glyphs_of_append split.symm]
            exact written
          · rw [← ofGlyphs_glyphs t, ← split, ofGlyphs, List.flatMap_append, List.flatMap_cons,
              List.append_assoc]
            rfl

/-- A text is one word, or a word and a blank with a text behind them. -/
theorem word_induction {P : Text → Prop} (word : ∀ t, Solid t → P t)
    (cut : ∀ s c t, Solid s → isBlankChar c → P t → P (s ++ String.utf8EncodeChar c ++ t))
    (t : Text) : P t := by
  induction hl : t.length using Nat.strongRecOn generalizing t with
  | _ n ih =>
      by_cases solid : t.Solid
      · exact word t solid
      · obtain ⟨s, c, u, hs, blank, rfl⟩ := exists_cut_of_not_solid solid
        have shorter : u.length < n := by
          have filled := length_bytes_pos (.char c)
          simp only [Glyph.bytes] at filled
          simp only [← hl, List.length_append]
          omega
        exact cut s c u hs blank (ih _ shorter u rfl)

theorem splitAt_cut {α : Type} {p : α → Bool} {a : α} (h : p a) (part l l' : List α) :
    splitAt p [] part (l ++ a :: l') = splitAt p [] part l ++ splitAt p [] [] l' := by
  induction l generalizing part with
  | nil =>
      rw [List.nil_append, splitAt_cons_of_pos p h, splitAt_nil]
      rfl
  | cons b l ih =>
      by_cases hb : p b
      · rw [List.cons_append, splitAt_cons_of_pos p hb, splitAt_cons_of_pos p hb, ih]
        rfl
      · rw [List.cons_append, splitAt_cons_of_neg p hb, splitAt_cons_of_neg p hb, ih]

theorem split_cut (sep : UInt8) (s t : Text) :
    (s ++ sep :: t).split sep = s.split sep ++ t.split sep :=
  splitAt_cut (p := (· == sep)) (beq_self_eq_true sep) [] s t

theorem splitAt_of_forall {α : Type} {p : α → Bool} {l : List α} (h : ∀ a ∈ l, p a = false)
    (part : List α) : splitAt p [] part l = [part.reverse ++ l] := by
  induction l generalizing part with
  | nil => rw [splitAt_nil, List.append_nil]
  | cons a l ih =>
      have other : ¬ p a = true := by
        rw [h a List.mem_cons_self]
        exact Bool.false_ne_true
      rw [splitAt_cons_of_neg p other, ih fun b hb => h b (List.mem_cons_of_mem _ hb),
        List.reverse_cons, List.append_assoc]
      rfl

theorem glyphs_eq_nil {t : Text} : t.glyphs = [] ↔ t = [] := by
  constructor
  · intro none
    rw [← ofGlyphs_glyphs t, none]
    rfl
  · intro none
    rw [none]
    rfl

theorem fields_of_solid {t : Text} (h : t.Solid) (filled : t ≠ []) : t.fields = [t] := by
  rw [fields, splitAt_of_forall h, List.reverse_nil, List.nil_append]
  simp [glyphs_eq_nil, filled, ofGlyphs_glyphs]

theorem fields_cut {c : Char} (blank : isBlankChar c) (s t : Text) :
    (s ++ String.utf8EncodeChar c ++ t).fields = s.fields ++ t.fields := by
  have pos : Glyph.isBlank (.char c) = true := blank
  rw [fields, glyphs_cut, splitAt_cut pos, List.filter_append, List.map_append]
  rfl

theorem fields_spec (t : Text) : ∀ field ∈ t.fields, field.Solid ∧ field ≠ [] := by
  induction t using word_induction with
  | word t solid =>
      intro field h
      by_cases filled : t = []
      · rw [filled] at h
        cases h
      · rw [fields_of_solid solid filled, List.mem_singleton] at h
        exact h ▸ ⟨solid, filled⟩
  | cut s c t solid blank ih =>
      intro field h
      rw [fields_cut blank, List.mem_append] at h
      cases h with
      | inr later => exact ih field later
      | inl first =>
          by_cases filled : s = []
          · rw [filled] at first
            cases first
          · rw [fields_of_solid solid filled, List.mem_singleton] at first
            exact first ▸ ⟨solid, filled⟩

theorem solid_of_mem_split {word : Text} (solid : word.Solid) :
    ∀ part ∈ word.split hyphen, part.Solid := by
  induction word using split_induction hyphen with
  | part word free =>
      intro part h
      rw [split_of_notMem free, List.mem_singleton] at h
      exact h ▸ solid
  | cut s t free ih =>
      obtain ⟨first, later⟩ := (solid_cut (by decide) (by decide) s t).mp solid
      intro part h
      rw [split_append_cons free] at h
      cases List.mem_cons.mp h with
      | inl front => exact front ▸ first
      | inr behind => exact ih later part behind

end Text

/-- What is not its own lower case is no blank, and its lower case is a letter. -/
theorem lowerChar_cases (c : Char) :
    lowerChar c = c ∨
      isBlankChar c = false ∧ 97 ≤ (lowerChar c).toNat ∧ (lowerChar c).toNat ≤ 122 := by
  simp only [lowerChar]
  split
  · rename_i capital
    have range : c.toNat < 91 := by
      have high := (Bool.and_eq_true_iff.mp capital).2
      rw [decide_eq_true_eq, Char.le_def, UInt32.le_iff_toNat_le] at high
      exact Nat.lt_succ_of_le high
    have letters : ∀ n < 91, 'A' ≤ Char.ofNat n → isBlankChar (Char.ofNat n) = false ∧
        97 ≤ (Char.ofNat (n + 32)).toNat ∧ (Char.ofNat (n + 32)).toNat ≤ 122 := by
      decide
    have low := of_decide_eq_true (Bool.and_eq_true_iff.mp capital).1
    have found := letters c.toNat range (by rwa [Char.ofNat_toNat])
    rw [Char.ofNat_toNat] at found
    exact .inr found
  · split
    · rename_i dotted
      rw [beq_iff_eq.mp dotted]
      exact .inr (by decide)
    · split
      · rename_i kelvin
        rw [beq_iff_eq.mp kelvin]
        exact .inr (by decide)
      · exact .inl rfl

theorem isBlankChar_lowerChar (c : Char) : isBlankChar (lowerChar c) = isBlankChar c := by
  have letters : ∀ n < 123, 97 ≤ n → isBlankChar (Char.ofNat n) = false := by decide
  cases lowerChar_cases c with
  | inl same => rw [same]
  | inr letter =>
      obtain ⟨written, low, high⟩ := letter
      have small := letters _ (Nat.lt_succ_of_le high) low
      rw [Char.ofNat_toNat] at small
      rw [small, written]

namespace Text

theorem glyphs_lower (t : Text) :
    t.lower.glyphs = t.glyphs.map fun g => .char (lowerChar g.toChar) := by
  rw [lower, glyphs_ofChars, chars, List.map_map, List.map_map]
  rfl

theorem solid_lower (t : Text) : t.lower.Solid ↔ t.Solid := by
  have same (g : Glyph) : isBlankChar (lowerChar g.toChar) = g.isBlank := by
    rw [isBlankChar_lowerChar]
    cases g <;> rfl
  rw [Solid, glyphs_lower, List.forall_mem_map]
  simp only [Glyph.isBlank, same]
  rfl

end Text

theorem canonical_cases (word : Text) :
    canonical word = word ∨ (word, canonical word) ∈ aliases := by
  rw [canonical]
  cases found : aliases.lookup word with
  | none => exact .inl rfl
  | some target => exact .inr (mem_of_lookup found)

theorem solid_of_mem_aliases : ∀ pair ∈ aliases, pair.1.Solid ∧ pair.2.Solid := by
  decide +kernel

theorem solid_canonical (word : Text) : (canonical word).Solid ↔ word.Solid := by
  cases canonical_cases word with
  | inl same => rw [same]
  | inr member =>
      obtain ⟨word, target⟩ := solid_of_mem_aliases _ member
      exact iff_of_true target word

/-- Words of the two tables aside, a key has the name that its part spells in lower case. -/
theorem keyOfPart_name {part name : Text} (h : keyOfPart part = some name) :
    (part.Solid ∧ name.Solid) ∨ name = part.lower := by
  have listed : ∀ pair ∈ renamedKeys, pair.1.Solid ∧ pair.2.Solid := by decide +kernel
  simp only [keyOfPart] at h
  split at h
  · cases h
    cases renamed : renamedKeys.lookup (canonical part) with
    | some name =>
        obtain ⟨word, target⟩ := listed _ (mem_of_lookup renamed)
        exact .inl ⟨(solid_canonical part).mp word, target⟩
    | none =>
        cases canonical_cases part with
        | inl same =>
            rw [same]
            exact .inr rfl
        | inr member =>
            obtain ⟨word, target⟩ := solid_of_mem_aliases _ member
            exact .inl ⟨word, (Text.solid_lower _).mpr target⟩
  · cases h

theorem solid_of_keyOfPart {part name : Text} (h : keyOfPart part = some name) :
    name.Solid ↔ part.Solid := by
  cases keyOfPart_name h with
  | inl both => exact iff_of_true both.2 both.1
  | inr lower =>
      rw [lower]
      exact Text.solid_lower part

/-- The only keys that blanks have are those of single characters. -/
theorem keyOfPart_cut {c : Char} (blank : isBlankChar c) {s t : Text} (filled : s ≠ [] ∨ t ≠ []) :
    keyOfPart (s ++ String.utf8EncodeChar c ++ t) = none := by
  have single : ∀ name ∈ Key.names, name.Solid ∨ name.glyphs.length = 1 := by decide +kernel
  have broken := Text.not_solid_cut blank s t
  cases key : keyOfPart (s ++ String.utf8EncodeChar c ++ t) with
  | none => rfl
  | some name =>
      exfalso
      cases single name (List.contains_iff_mem.mp (isName_of_keyOfPart key)) with
      | inl solid => exact broken ((solid_of_keyOfPart key).mp solid)
      | inr one =>
          cases keyOfPart_name key with
          | inl both => exact broken both.1
          | inr lower =>
              rw [lower, Text.glyphs_lower, List.length_map, Text.glyphs_cut] at one
              simp only [List.length_append, List.length_cons] at one
              have none : s.glyphs.length = 0 ∧ t.glyphs.length = 0 := by omega
              rw [List.length_eq_zero_iff, List.length_eq_zero_iff, Text.glyphs_eq_nil,
                Text.glyphs_eq_nil] at none
              exact filled.elim (fun front => front none.1) fun back => back none.2

theorem exists_part_of_mem_keys {words keys : List Text} (h : readKeys words = .ok keys) :
    ∀ key ∈ keys, ∃ word ∈ words, ∃ part ∈ word.split hyphen, keyOfPart part = some key := by
  induction words generalizing keys with
  | nil =>
      cases h
      exact fun key hk => absurd hk List.not_mem_nil
  | cons word words ih =>
      obtain ⟨first, more, hfirst, hmore, rfl⟩ := readKeys_cons h
      intro key hk
      cases List.mem_append.mp hk with
      | inl here =>
          have parts : (word.split hyphen).map keyOfPart = first.map some :=
            mapM_id_eq_some hfirst
          obtain ⟨part, hp, named⟩ := List.mem_map.mp (parts ▸ List.mem_map_of_mem here)
          exact ⟨word, List.mem_cons_self, part, hp, named⟩
      | inr later =>
          obtain ⟨word, hw, found⟩ := ih hmore key later
          exact ⟨word, List.mem_cons_of_mem _ hw, found⟩

/-- Keys that are read from the fields of a line have no blank in their names. -/
theorem solid_of_mem_keys {t : Text} {keys : List Text} (h : readKeys t.fields = .ok keys) :
    ∀ key ∈ keys, key.Solid := by
  intro key hk
  obtain ⟨word, hw, part, hp, named⟩ := exists_part_of_mem_keys h key hk
  have solid : part.Solid := Text.solid_of_mem_split (t.fields_spec word hw).1 part hp
  exact (solid_of_keyOfPart named).mpr solid

end KeyScript
