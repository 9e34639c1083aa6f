import KeyScript.Proofs.Words

/-!
Changing the words of a text and nothing else. White space stays as it is, so a
text whose words are changed has the changed words as its fields, is cut at a
space where the text is, and has nothing to trim if the text has not.
-/

namespace KeyScript
namespace Text

/-- Changes every word; `word` holds the glyphs read of the present one, the last first. -/
def mapWordsFrom (f : Text → Text) (word : List Glyph) : List Glyph → Text
  | [] => f (ofGlyphs word.reverse)
  | g :: rest =>
    if g.isBlank then f (ofGlyphs word.reverse) ++ g.bytes ++ mapWordsFrom f [] rest
    else mapWordsFrom f (g :: word) rest

/-- The text with `f` applied to every word, and the white space between words as it was. -/
def mapWords (f : Text → Text) (t : Text) : Text :=
  mapWordsFrom f [] t.glyphs

section

variable (f : Text → Text)

theorem mapWordsFrom_of_forall {gs : List Glyph} (h : ∀ g ∈ gs, g.isBlank = false)
    (word : List Glyph) : mapWordsFrom f word gs = f (ofGlyphs (word.reverse ++ gs)) := by
  induction gs generalizing word with
  | nil => rw [mapWordsFrom, List.append_nil]
  | cons g gs ih =>
      obtain ⟨first, others⟩ := List.forall_mem_cons.mp h
      rw [mapWordsFrom, if_neg (by rw [first]; exact Bool.false_ne_true), ih others,
        List.reverse_cons, List.append_assoc]
      rfl

theorem mapWordsFrom_append {g : Glyph} (blank : g.isBlank) (word gs hs : List Glyph) :
    mapWordsFrom f word (gs ++ g :: hs) =
      mapWordsFrom f word gs ++ g.bytes ++ mapWordsFrom f [] hs := by
  induction gs generalizing word with
  | nil => simp only [List.nil_append, mapWordsFrom, blank, if_true]
  | cons a gs ih =>
      rw [List.cons_append, mapWordsFrom, mapWordsFrom]
      split
      · rw [ih]
        simp only [List.append_assoc]
      · exact ih (a :: word)

theorem mapWords_of_solid {t : Text} (h : t.Solid) : mapWords f t = f t := by
  rw [mapWords, mapWordsFrom_of_forall f h, List.reverse_nil, List.nil_append, ofGlyphs_glyphs]

theorem mapWords_cut {c : Char} (blank : isBlankChar c) (s t : Text) :
    mapWords f (s ++ String.utf8EncodeChar c ++ t) =
      mapWords f s ++ String.utf8EncodeChar c ++ mapWords f t := by
  have pos : Glyph.isBlank (.char c) = true := blank
  rw [mapWords, glyphs_cut, mapWordsFrom_append f pos]
  rfl

theorem mem_of_mem_mapWords {b : UInt8} (h : ∀ w, b ∈ f w → b ∈ w) {t : Text}
    (found : b ∈ mapWords f t) : b ∈ t := by
  induction t using word_induction with
  | word t solid =>
      rw [mapWords_of_solid f solid] at found
      exact h t found
  | cut s c t solid blank ih =>
      rw [mapWords_cut f blank, mapWords_of_solid f solid] at found
      simp only [List.mem_append] at found ⊢
      exact found.imp (fun front => front.imp_left (h s)) ih

end

/-- The text begins with something other than white space. -/
def Starts (t : Text) : Prop :=
  ∃ g, t.glyphs.head? = some g ∧ g.isBlank = false

/-- The text ends with something other than white space. -/
def Ends (t : Text) : Prop :=
  ∃ g, t.glyphs.getLast? = some g ∧ g.isBlank = false

theorem Solid.starts {t : Text} (h : t.Solid) (filled : t ≠ []) : t.Starts := by
  have glyphs : t.glyphs ≠ [] := fun none => filled (glyphs_eq_nil.mp none)
  exact ⟨_, List.head?_eq_some_head glyphs, h _ (List.head_mem glyphs)⟩

theorem Solid.ends {t : Text} (h : t.Solid) (filled : t ≠ []) : t.Ends := by
  have glyphs : t.glyphs ≠ [] := fun none => filled (glyphs_eq_nil.mp none)
  exact ⟨_, List.getLast?_eq_some_getLast glyphs, h _ (List.getLast_mem glyphs)⟩

theorem starts_cut {c : Char} (blank : isBlankChar c) (s t : Text) :
    Starts (s ++ String.utf8EncodeChar c ++ t) ↔ s.Starts := by
  have pos : Glyph.isBlank (.char c) = true := blank
  rw [Starts, Starts, glyphs_cut, List.head?_append]
  cases s.glyphs.head? with
  | some g => rfl
  | none => simp [pos]

theorem ends_cut {c : Char} (blank : isBlankChar c) (s t : Text) :
    Ends (s ++ String.utf8EncodeChar c ++ t) ↔ t.Ends := by
  have pos : Glyph.isBlank (.char c) = true := blank
  rw [Ends, Ends, glyphs_cut, List.getLast?_append, List.getLast?_cons]
  cases t.glyphs.getLast? with
  | some g => rfl
  | none => simp [pos]

section

variable {f : Text → Text} (solid : ∀ w, Solid w → Solid (f w)) (nil : ∀ w, f w = [] ↔ w = [])
include nil

theorem mapWords_eq_nil (t : Text) : mapWords f t = [] ↔ t = [] := by
  by_cases one : t.Solid
  · rw [mapWords_of_solid f one, nil]
  · obtain ⟨s, c, u, -, blank, rfl⟩ := exists_cut_of_not_solid one
    have filled : String.utf8EncodeChar c ≠ [] :=
      List.length_pos_iff.mp (length_bytes_pos (.char c))
    rw [mapWords_cut f blank]
    simp [filled]

include solid

theorem fields_mapWords (t : Text) : (mapWords f t).fields = t.fields.map f := by
  have word (w : Text) (hw : w.Solid) : (f w).fields = w.fields.map f := by
    by_cases none : w = []
    · rw [none, (nil []).mpr rfl]
      rfl
    · have filled : f w ≠ [] := fun empty => none ((nil w).mp empty)
      rw [fields_of_solid (solid w hw) filled, fields_of_solid hw none]
      rfl
  induction t using word_induction with
  | word t ht => rw [mapWords_of_solid f ht, word t ht]
  | cut s c t hs blank ih =>
      rw [mapWords_cut f blank, fields_cut blank, fields_cut blank, List.map_append, ih,
        mapWords_of_solid f hs, word s hs]

theorem Starts.mapWords {t : Text} (h : t.Starts) : (t.mapWords f).Starts := by
  have word (w : Text) (hw : w.Solid) (starts : w.Starts) : (f w).Starts := by
    apply (solid w hw).starts
    intro empty
    rw [(nil w).mp empty] at starts
    obtain ⟨g, none, -⟩ := starts
    cases none
  by_cases one : t.Solid
  · rw [mapWords_of_solid f one]
    exact word t one h
  · obtain ⟨s, c, u, hs, blank, rfl⟩ := exists_cut_of_not_solid one
    rw [mapWords_cut f blank, mapWords_of_solid f hs, starts_cut blank]
    exact word s hs ((starts_cut blank s u).mp h)

theorem Ends.mapWords {t : Text} (h : t.Ends) : (t.mapWords f).Ends := by
  induction t using word_induction with
  | word t ht =>
      rw [mapWords_of_solid f ht]
      apply (solid t ht).ends
      intro empty
      rw [(nil t).mp empty] at h
      obtain ⟨g, none, -⟩ := h
      cases none
  | cut s c t hs blank ih =>
      rw [mapWords_cut f blank, ends_cut blank]
      exact ih ((ends_cut blank s t).mp h)

end

/-- The white space in front of a text. -/
def blankStart (t : Text) : Text :=
  ofGlyphs (t.glyphs.takeWhile Glyph.isBlank)

/-- The white space behind a text that is not all white space. -/
def blankEnd (t : Text) : Text :=
  ofGlyphs ((t.glyphs.dropWhile Glyph.isBlank).reverse.takeWhile Glyph.isBlank).reverse

/-- The text with `f` applied to what is left of it when it is trimmed. -/
def mapTrimmed (f : Text → Text) (t : Text) : Text :=
  t.blankStart ++ f t.trim ++ t.blankEnd

theorem around_trim (t : Text) : t.blankStart ++ t.trim ++ t.blankEnd = t := by
  let rest := t.glyphs.dropWhile Glyph.isBlank
  have back : dropEndWhile Glyph.isBlank rest ++ (rest.reverse.takeWhile Glyph.isBlank).reverse =
      rest := by
    rw [dropEndWhile, ← List.reverse_append, List.takeWhile_append_dropWhile, List.reverse_reverse]
  calc t.blankStart ++ t.trim ++ t.blankEnd
      = ofGlyphs (t.glyphs.takeWhile Glyph.isBlank ++ (dropEndWhile Glyph.isBlank rest ++
          (rest.reverse.takeWhile Glyph.isBlank).reverse)) := by
        simp only [ofGlyphs, List.flatMap_append, List.append_assoc]
        rfl
    _ = t := by rw [back, List.takeWhile_append_dropWhile, ofGlyphs_glyphs]

/-- What is left when a text is trimmed has white space at neither end. -/
theorem tidy_trim (t : Text) : t.trim = [] ∨ (t.trim.Starts ∧ t.trim.Ends) := by
  let rest := t.glyphs.dropWhile Glyph.isBlank
  let kept := rest.reverse.dropWhile Glyph.isBlank
  have glyphs : t.trim.glyphs = kept.reverse := glyphs_trim t
  by_cases none : kept.reverse = []
  · exact .inl (glyphs_eq_nil.mp (glyphs.trans none))
  · right
    have split : rest = kept.reverse ++ (rest.reverse.takeWhile Glyph.isBlank).reverse := by
      rw [← List.reverse_append, List.takeWhile_append_dropWhile, List.reverse_reverse]
    have first : rest.head? = some (kept.reverse.head none) := by
      rw [split, List.head?_append, List.head?_eq_some_head none]
      rfl
    have last : kept.head? = some (kept.reverse.getLast none) := by
      rw [← List.getLast?_reverse, List.getLast?_eq_some_getLast none]
    rw [Starts, Ends, glyphs]
    exact ⟨⟨_, List.head?_eq_some_head none, head_dropWhile first⟩,
      ⟨_, List.getLast?_eq_some_getLast none, head_dropWhile last⟩⟩

theorem glyphs_blank_append {gs : List Glyph} (blank : ∀ g ∈ gs, g.isBlank) (t : Text) :
    (ofGlyphs gs ++ t).glyphs = gs ++ t.glyphs := by
  induction gs with
  | nil => rfl
  | cons g gs ih =>
      obtain ⟨first, others⟩ := List.forall_mem_cons.mp blank
      cases g with
      | stray b => cases first
      | char c =>
          have glyphs := glyphs_encode c (ofGlyphs gs ++ t)
          rw [ih others, ← List.append_assoc] at glyphs
          exact glyphs

theorem glyphs_append_blank {gs : List Glyph} (blank : ∀ g ∈ gs, g.isBlank) (t : Text) :
    (t ++ ofGlyphs gs).glyphs = t.glyphs ++ gs := by
  have alone := glyphs_blank_append blank []
  rw [List.append_nil] at alone
  rw [glyphs_append, alone]
  · exact congrArg _ (List.append_nil gs)
  · intro b first
    cases gs with
    | nil => cases first
    | cons g gs =>
        cases g with
        | stray b => cases blank _ List.mem_cons_self
        | char c => exact Glyph.isTail_head_encode c (ofGlyphs gs) b first

/-- White space is trimmed off a text, and nothing of what stands between. -/
theorem trim_around {front back : List Glyph} (hf : ∀ g ∈ front, g.isBlank)
    (hb : ∀ g ∈ back, g.isBlank) {t : Text} (tidy : t = [] ∨ (t.Starts ∧ t.Ends)) :
    (ofGlyphs front ++ t ++ ofGlyphs back).trim = t := by
  rw [trim, glyphs_append_blank hb, glyphs_blank_append hf, List.append_assoc,
    List.dropWhile_append_of_pos hf]
  obtain rfl | ⟨⟨g, first, written⟩, ⟨g', last, written'⟩⟩ := tidy
  · have none : (back ++ []).dropWhile Glyph.isBlank = [] := List.dropWhile_append_of_pos hb
    change ofGlyphs (dropEndWhile _ (back.dropWhile Glyph.isBlank)) = []
    rw [← List.append_nil back, none]
    rfl
  · have front : (t.glyphs ++ back).dropWhile Glyph.isBlank = t.glyphs ++ back := by
      apply dropWhile_of_head
      intro a head
      rw [List.head?_append, first] at head
      cases head
      exact written
    have whole : t.glyphs.reverse.dropWhile Glyph.isBlank = t.glyphs.reverse := by
      apply dropWhile_of_head
      intro a head
      rw [List.head?_reverse, last] at head
      cases head
      exact written'
    have behind : ∀ g ∈ back.reverse, g.isBlank := fun g hg => hb g (List.mem_reverse.mp hg)
    rw [front, dropEndWhile, List.reverse_append, List.dropWhile_append_of_pos behind, whole,
      List.reverse_reverse, ofGlyphs_glyphs]

theorem trim_mapTrimmed {f : Text → Text} {t : Text}
    (tidy : f t.trim = [] ∨ (Starts (f t.trim) ∧ Ends (f t.trim))) :
    (mapTrimmed f t).trim = f t.trim := by
  apply trim_around _ _ tidy
  · intro g hg
    exact List.all_eq_true.mp List.all_takeWhile g hg
  · intro g hg
    exact List.all_eq_true.mp List.all_takeWhile g (List.mem_reverse.mp hg)

theorem mem_of_mem_mapTrimmed {f : Text → Text} {b : UInt8} (h : ∀ t, b ∈ f t → b ∈ t) {t : Text}
    (found : b ∈ mapTrimmed f t) : b ∈ t := by
  rw [← around_trim t]
  rw [mapTrimmed] at found
  simp only [List.mem_append] at found ⊢
  exact found.imp_left fun front => front.imp_right (h t.trim)

end Text
end KeyScript
