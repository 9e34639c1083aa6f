import KeyScript.Proofs.Links
import KeyScript.Proofs.Utf8

/-!
What a statement takes from its line. A text is the end of the line behind a
space, and keys are names from a fixed list, not more of them than the line has
room for.
-/

namespace KeyScript
namespace Text

section

variable {α : Type} (p : α → Bool)

theorem splitAt_eq_append (parts : List (List α)) (part l : List α) :
    splitAt p parts part l = parts.reverse ++ splitAt p [] part l := by
  induction l generalizing parts part with
  | nil => simp [splitAt]
  | cons a l ih =>
      by_cases h : p a
      · simp only [splitAt, h, if_true]
        rw [ih, ih [part.reverse]]
        simp
      · simp only [splitAt, h]
        exact ih parts (a :: part)

theorem splitAt_nil (part : List α) : splitAt p [] part [] = [part.reverse] := rfl

theorem splitAt_cons_of_pos {a : α} (h : p a) (part l : List α) :
    splitAt p [] part (a :: l) = part.reverse :: splitAt p [] [] l := by
  simp only [splitAt, h, if_true]
  exact splitAt_eq_append p [part.reverse] [] l

theorem splitAt_cons_of_neg {a : α} (h : ¬ p a) (part l : List α) :
    splitAt p [] part (a :: l) = splitAt p [] (a :: part) l := by
  simp only [splitAt, h]
  rfl

theorem length_splitAt_le (part l : List α) : (splitAt p [] part l).length ≤ l.length + 1 := by
  induction l generalizing part with
  | nil => simp [splitAt_nil]
  | cons a l ih =>
      by_cases h : p a
      · rw [splitAt_cons_of_pos p h]
        simpa using ih []
      · rw [splitAt_cons_of_neg p h]
        exact Nat.le_succ_of_le (ih (a :: part))

end

theorem length_bytes_pos (g : Glyph) : 0 < g.bytes.length := by
  cases g with
  | char c =>
      obtain ⟨a, tail, encode, -⟩ := Glyph.read_encode c []
      simp [Glyph.bytes, encode]
  | stray b => simp [Glyph.bytes]

/-- Pieces of a text have room in it, with a byte between two of them. -/
theorem length_pieces_le (p : Glyph → Bool) (part l : List Glyph) :
    ((splitAt p [] part l).flatMap fun piece => ofGlyphs piece ++ [0]).length ≤
      (ofGlyphs (part.reverse ++ l)).length + 1 := by
  induction l generalizing part with
  | nil => simp [splitAt_nil, ofGlyphs]
  | cons a l ih =>
      by_cases h : p a
      · have later := ih []
        have room := length_bytes_pos a
        rw [splitAt_cons_of_pos p h]
        simp only [ofGlyphs, List.flatMap_cons, List.flatMap_append, List.length_append,
          List.length_cons, List.length_nil, List.reverse_nil, List.nil_append] at later ⊢
        omega
      · have later := ih (a :: part)
        rw [splitAt_cons_of_neg p h]
        simpa using later

theorem length_fields_le (t : Text) :
    (t.fields.flatMap fun field => field ++ [0]).length ≤ t.length + 1 := by
  have pieces := length_pieces_le Glyph.isBlank [] t.glyphs
  rw [List.reverse_nil, List.nil_append, ofGlyphs_glyphs] at pieces
  refine Nat.le_trans ?_ pieces
  rw [fields, List.flatMap_map]
  generalize splitAt Glyph.isBlank [] [] t.glyphs = all
  induction all with
  | nil => simp
  | cons piece all ih =>
      simp only [List.filter_cons, List.flatMap_cons, List.length_append]
      split
      · simp only [List.flatMap_cons, List.length_append]
        omega
      · omega

/-- What is found behind a byte is the end of the text. -/
theorem eq_of_cut {sep : UInt8} {t after : Text} (h : (cut sep t).2 = some after) :
    t = (cut sep t).1 ++ sep :: after := by
  have whole : t.takeWhile (· != sep) ++ t.dropWhile (· != sep) = t :=
    List.takeWhile_append_dropWhile
  have first := List.head?_dropWhile_not (· != sep) t
  simp only [cut] at h ⊢
  cases hd : t.dropWhile (· != sep) with
  | nil => simp [hd] at h
  | cons b rest =>
      rw [hd] at h first whole
      obtain rfl : b = sep := by simpa using first
      obtain rfl : rest = after := by simpa using h
      exact whole.symm

end Text

theorem mapM_id_eq_some {α : Type} {l : List (Option α)} {all : List α}
    (h : l.mapM id = some all) : l = all.map some := by
  induction l generalizing all with
  | nil =>
      cases h
      rfl
  | cons a l ih =>
      cases a with
      | none => simp at h
      | some first =>
          cases hl : l.mapM id with
          | none => simp [hl] at h
          | some more =>
              obtain rfl : first :: more = all := by simpa [hl] using h
              rw [ih hl, List.map_cons]

theorem isName_of_keyOfPart {part key : Text} (h : keyOfPart part = some key) :
    Key.isName key := by
  simp only [keyOfPart] at h
  split at h
  · rename_i named
    cases h
    exact named
  · cases h

theorem keysOf_spec {word : Text} {keys : List Text} (h : keysOf word = some keys) :
    keys.length ≤ word.length + 1 ∧ ∀ key ∈ keys, Key.isName key := by
  have parts : (word.split hyphen).map keyOfPart = keys.map some := mapM_id_eq_some h
  constructor
  · have lengths := congrArg List.length parts
    rw [List.length_map, List.length_map] at lengths
    exact lengths ▸ Text.length_splitAt_le (· == hyphen) [] word
  · intro key hk
    have named : some key ∈ (word.split hyphen).map keyOfPart :=
      parts ▸ List.mem_map_of_mem hk
    obtain ⟨part, -, hp⟩ := List.mem_map.mp named
    exact isName_of_keyOfPart hp

theorem readKeys_cons {word : Text} {words keys : List Text}
    (h : readKeys (word :: words) = .ok keys) :
    ∃ first more, keysOf word = some first ∧ readKeys words = .ok more ∧ keys = first ++ more := by
  simp only [readKeys] at h
  split at h
  · cases h
  · split at h
    · cases h
    · cases h
      exact ⟨_, _, ‹_›, ‹_›, rfl⟩

/-- Keys have names, and each has room in the words it was read from. -/
theorem readKeys_spec {words keys : List Text} (h : readKeys words = .ok keys) :
    keys.length ≤ (words.flatMap fun word => word ++ [0]).length ∧
      ∀ key ∈ keys, Key.isName key := by
  induction words generalizing keys with
  | nil =>
      cases h
      exact ⟨Nat.zero_le _, fun key hk => absurd hk List.not_mem_nil⟩
  | cons word words ih =>
      obtain ⟨first, more, hfirst, hmore, rfl⟩ := readKeys_cons h
      obtain ⟨length, names⟩ := keysOf_spec hfirst
      obtain ⟨lengths, others⟩ := ih hmore
      refine ⟨?_, List.forall_mem_append.mpr ⟨names, others⟩⟩
      simp only [List.flatMap_cons, List.length_append, List.length_cons, List.length_nil]
      omega

theorem Key.isName_spec {key : Text} (h : Key.isName key) : key.IsUtf8 ∧ key.length ≤ 20 := by
  have all : ∀ name ∈ Key.names, name.isValid ∧ name.length ≤ 20 := by decide +kernel
  have found := all key (List.contains_iff_mem.mp h)
  exact ⟨(Text.isValid_iff key).mp found.1, found.2⟩

namespace Command

/-- A command holds no more than its line: its text is the end of the line behind a space, its
keys have names and there is room for them, and its count is not over the limit. -/
structure Fits (c : Command) : Prop where
  text : c.text = [] ∨ ∃ word, c.raw = word ++ 32 :: c.text
  names : ∀ key ∈ c.keys, Key.isName key
  keys : c.keys.length ≤ c.raw.length + 1
  count : c.count ≤ maxMillis

theorem Fits.isUtf8_text {c : Command} (h : c.Fits) (raw : c.raw.IsUtf8) : c.text.IsUtf8 := by
  rcases h.text with empty | ⟨word, eq⟩
  · exact empty ▸ Text.isUtf8_nil
  · rw [eq, Text.isUtf8_cut (by decide)] at raw
    exact raw.2

theorem Fits.length_text_le {c : Command} (h : c.Fits) : c.text.length ≤ c.raw.length := by
  rcases h.text with empty | ⟨word, eq⟩
  · simp [empty]
  · rw [eq, List.length_append, List.length_cons]
    omega

end Command

/-- A statement that stands on its own has the end of its line as its text, or the keys that
the fields of the line name. -/
theorem read_plain {inScript : Bool} {t : Text} {deed : Deed}
    (h : Statement.read inScript t = .ok (.plain deed)) :
    (deed.text = [] ∨ ∃ word, t = word ++ 32 :: deed.text) ∧
      (deed.keys = [] ∨ readKeys t.fields = .ok deed.keys) := by
  have argument : (t.cut 32).2.getD [] = [] ∨
      ∃ word, t = word ++ 32 :: (t.cut 32).2.getD [] := by
    cases hc : (t.cut 32).2 with
    | none => exact .inl rfl
    | some after => exact .inr ⟨_, Text.eq_of_cut hc⟩
  simp only [Statement.read] at h
  repeat' split at h
  all_goals cases h
  · exact ⟨argument, .inl rfl⟩
  · exact ⟨argument, .inl rfl⟩
  · exact ⟨.inl rfl, .inl rfl⟩
  · exact ⟨.inl rfl, .inl rfl⟩
  · exact ⟨.inl rfl, .inr ‹_›⟩

theorem read_again_le {inScript : Bool} {t : Text} {count : Nat}
    (h : Statement.read inScript t = .ok (.again count)) : count ≤ maxMillis := by
  simp only [Statement.read] at h
  repeat' split at h
  all_goals cases h
  exact readCount_le ‹_›

theorem parse_raw {raw : Text} {line : Int} {recent : List Command} {c : Command}
    (h : Command.parse raw line (some recent) = .ok c) : c.raw = raw.trim := by
  obtain ⟨deed, _, rfl⟩ | ⟨count, _, rfl⟩ := parse_cases h <;> rfl

theorem parse_fits {raw : Text} {line : Int} {recent : List Command} {c : Command}
    (h : Command.parse raw line (some recent) = .ok c) : c.Fits := by
  obtain ⟨deed, read, rfl⟩ | ⟨count, read, rfl⟩ := parse_cases h
  · obtain ⟨text, keys⟩ := read_plain read
    rcases keys with none | some
    · refine ⟨text, ?_, ?_, Nat.zero_le _⟩
      · simp [Command.keys, none]
      · simp [Command.keys, none]
    · obtain ⟨length, names⟩ := readKeys_spec some
      exact ⟨text, names, Nat.le_trans length (Text.length_fields_le _), Nat.zero_le _⟩
  · exact ⟨.inl rfl, fun _ hk => absurd hk List.not_mem_nil, Nat.zero_le _, read_again_le read⟩

end KeyScript
