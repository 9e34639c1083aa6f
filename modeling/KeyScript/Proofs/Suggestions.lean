import Mathlib.Data.List.Pairwise
import Mathlib.Data.List.Permutation
import Mathlib.Data.List.Sort
import KeyScript.Key.Suggest
import KeyScript.Proofs.Closeness
import KeyScript.Proofs.Grammar
import KeyScript.Proofs.Sorting

/-!
Which corrections are offered. The candidates are distinct, in byte order and
all of them understood. The corrections are the first of those that qualify, by
distance; the stable sort, which orders the candidates that are a typo or two
away, also keeps equally near ones in byte order.
-/

namespace KeyScript

namespace Text

theorem hyphen_mem_lower {t : Text} (h : hyphen ∈ t) : hyphen ∈ t.lower := by
  obtain ⟨s, u, rfl⟩ := List.append_of_mem h
  have kept : hyphen ∈ String.utf8EncodeChar (lowerChar (Char.ofNat hyphen.toNat)) := by decide
  rw [lower, chars, glyphs_cut_ascii (by decide), ofChars, List.mem_flatMap]
  exact ⟨_, by simp [Glyph.toChar], kept⟩

end Text

section

variable {α : Type}

theorem nodup_eraseDups [BEq α] [LawfulBEq α] : ∀ l : List α, l.eraseDups.Nodup
  | [] => .nil
  | a :: l => by
      rw [List.eraseDups_cons, List.nodup_cons]
      exact ⟨by simp, nodup_eraseDups _⟩
termination_by l => l.length
decreasing_by exact Nat.lt_succ_of_le (List.length_filter_le _ _)

theorem pair_sublist_or_swap {a b : α} {l : List α} (ha : a ∈ l) (hb : b ∈ l) (differ : a ≠ b) :
    [a, b].Sublist l ∨ [b, a].Sublist l := by
  induction l with
  | nil => cases ha
  | cons c l ih => grind

theorem not_pair_sublist_swap {a b : α} {l : List α} (nodup : l.Nodup)
    (h : [a, b].Sublist l) : ¬ [b, a].Sublist l := by
  induction l with
  | nil => cases h
  | cons c l ih => grind

/-- Sorting keeps the order of elements that may stand either way. -/
theorem pairwise_mergeSort_stable (le : α → α → Bool) {r : α → α → Prop} {l : List α}
    (trans : ∀ a b c, le a b → le b c → le a c) (total : ∀ a b, le a b || le b a)
    (nodup : l.Nodup) (ordered : l.Pairwise r) :
    (l.mergeSort le).Pairwise fun a b => le a b ∧ (le b a → r a b) := by
  have sorted := List.pairwise_mergeSort trans total l
  have perm := List.mergeSort_perm l le
  have nodup' : (l.mergeSort le).Nodup := perm.nodup_iff.mpr nodup
  rw [List.pairwise_iff_forall_sublist] at sorted ordered ⊢
  intro a b pair
  refine ⟨sorted pair, fun back => ordered ?_⟩
  have differ : a ≠ b := List.pairwise_iff_forall_sublist.mp nodup' pair
  have ha : a ∈ l := perm.mem_iff.mp (pair.subset (by simp))
  have hb : b ∈ l := perm.mem_iff.mp (pair.subset (by simp))
  -- If they stood the other way before, sorting would have left them so.
  rcases pair_sublist_or_swap ha hb differ with kept | swapped
  · exact kept
  · have still := List.pair_sublist_mergeSort trans total back swapped
    exact absurd still (not_pair_sublist_swap nodup' pair)

end

theorem mem_candidates {c : Text} :
    c ∈ candidates ↔ c ∈ verbWords ++ aliases.map (·.1) ++ renamedKeys.map (·.1) ∨
      ∃ name ∈ Key.names, 1 < name.length ∧ name.upper = c := by
  rw [candidates, List.mem_mergeSort, List.mem_eraseDups, spellings, List.mem_append]
  simp only [List.mem_map, List.mem_filter, decide_eq_true_eq, and_assoc]

theorem nodup_candidates : candidates.Nodup :=
  (List.mergeSort_perm _ _).nodup_iff.mpr (nodup_eraseDups _)

theorem candidates_ordered : candidates.Pairwise (· < ·) := by
  have sorted : candidates.Pairwise (· ≤ ·) := List.pairwise_mergeSort' (· ≤ ·) _
  exact (sorted.and nodup_candidates).imp fun h => Std.lt_of_le_of_ne h.1 h.2

theorem filter_candidates_eq {p : Text → Bool} {l : List Text} (ordered : l.Pairwise (· < ·))
    (listed : ∀ c ∈ l, c ∈ spellings ∧ p c) (full : ∀ c ∈ spellings, p c → c ∈ l) :
    candidates.filter p = l := by
  have asymm : ∀ {c d : Text}, c < d → ¬ d < c := Std.Asymm.asymm _ _
  have nodup : l.Nodup := ordered.imp fun {c d} less => by
    rintro rfl
    exact asymm less less
  refine List.Perm.eq_of_pairwise (fun c d _ _ less more => absurd more (asymm less))
    (candidates_ordered.filter p) ordered ?_
  refine (List.perm_ext_iff_of_nodup (nodup_candidates.filter p) nodup).mpr fun c => ?_
  rw [List.mem_filter, candidates, List.mem_mergeSort, List.mem_eraseDups]
  exact ⟨fun h => full c h.1 h.2, listed c⟩

/-- The words of the tables are understood. -/
theorem isRecognized_of_listed {word : Text}
    (h : word ∈ verbWords ++ aliases.map (·.1) ++ renamedKeys.map (·.1)) : isRecognized word := by
  have listed : ∀ word ∈ verbWords ++ aliases.map (·.1) ++ renamedKeys.map (·.1),
      isRecognized word := by
    decide +kernel
  exact listed word h

/-- So are the names of keys in upper case: where no table has such a word, the key is found by its
lower case. -/
theorem isRecognized_upper {name : Text} (h : name ∈ Key.names) (long : 1 < name.length) :
    isRecognized name.upper := by
  have regular : ∀ name ∈ Key.names, 1 < name.length →
      name.upper.lower = name ∧ hyphen ∉ name := by
    decide +kernel
  by_cases listed : name.upper ∈ verbWords ++ aliases.map (·.1) ++ renamedKeys.map (·.1)
  · exact isRecognized_of_listed listed
  · obtain ⟨lowered, plain⟩ := regular name h long
    have free : hyphen ∉ name.upper := fun found => plain (lowered ▸ Text.hyphen_mem_lower found)
    have unaliased : aliases.lookup name.upper = none := by
      rw [List.lookup_eq_none_iff]
      grind
    have unrenamed : renamedKeys.lookup name.upper = none := by
      rw [List.lookup_eq_none_iff]
      grind
    have key : keyOfPart name.upper = some name := by
      simp [keyOfPart, canonical, unaliased, unrenamed, lowered, Key.isName, h]
    simp [isRecognized, keysOf_of_notMem free, key]

theorem isRecognized_candidate {c : Text} (h : c ∈ candidates) : isRecognized c := by
  rcases mem_candidates.mp h with listed | ⟨name, known, long, rfl⟩
  · exact isRecognized_of_listed listed
  · exact isRecognized_upper known long

/-- The first corrections, at most as many as are offered, among the candidates that qualify. -/
structure Foremost (Qualifies : Text → Prop) (Before : Text → Text → Prop) (chosen : List Text) :
    Prop where
  qualify : ∀ c ∈ chosen, c ∈ candidates ∧ Qualifies c
  ordered : chosen.Pairwise Before
  /-- A candidate is left out only behind as many others as are offered. -/
  leftOut : ∀ c ∈ candidates, Qualifies c → c ∉ chosen →
    chosen.length = maxSuggestions ∧ ∀ d ∈ chosen, Before d c

namespace Foremost

variable {Qualifies : Text → Prop} {Before : Text → Text → Prop} {chosen : List Text}

/-- The front of the candidates that qualify, once they are in order. -/
theorem of_take {l : List Text} (member : ∀ c, c ∈ l ↔ c ∈ candidates ∧ Qualifies c)
    (sorted : l.Pairwise Before) : Foremost Qualifies Before (l.take maxSuggestions) where
  qualify c chosen := (member c).mp (List.mem_of_mem_take chosen)
  ordered := sorted.take
  leftOut c known qualifies left := by
    have listed := (member c).mpr ⟨known, qualifies⟩
    rw [← List.take_append_drop maxSuggestions l] at listed sorted
    have behind := (List.mem_append.mp listed).resolve_left left
    have longer := List.length_pos_of_mem behind
    rw [List.length_drop] at longer
    refine ⟨List.length_take_of_le (by omega), fun d chosen => ?_⟩
    exact (List.pairwise_append.mp sorted).2.2 d chosen c behind

theorem eq_nil_iff (h : Foremost Qualifies Before chosen) :
    chosen = [] ↔ ∀ c ∈ candidates, ¬ Qualifies c := by
  constructor
  · rintro rfl c known qualifies
    have full := (h.leftOut c known qualifies List.not_mem_nil).1
    cases full
  · intro unqualified
    refine List.eq_nil_iff_forall_not_mem.mpr fun c member => ?_
    exact unqualified c (h.qualify c member).1 (h.qualify c member).2

end Foremost

/-- The nearer of two words first, equally near ones in byte order. -/
def Nearer (distance : Text → Nat) (c d : Text) : Prop :=
  distance c < distance d ∨ distance c = distance d ∧ c < d

section

variable {word : List Char} {kept : List Text} {entries : List (Text × Nat)}

theorem map_fst_scored (word : List Char) (kept : List Text) :
    (scored word kept).map (·.1) = kept := by
  simp [scored, Function.comp_def]

theorem snd_of_mem_scored {entry : Text × Nat} (h : entry ∈ scored word kept) :
    entry.2 = editDistance word entry.1.chars := by
  obtain ⟨c, -, rfl⟩ := List.mem_map.mp h
  rfl

theorem offered_eq : offered entries = (entries.map (·.1)).take maxSuggestions :=
  List.map_take

theorem length_offered_le : (offered entries).length ≤ maxSuggestions := by
  rw [offered_eq]
  exact List.length_take_le _ _

/-- However the qualified candidates were arranged, the first are offered. -/
theorem offered_sublist (same : entries.Perm (scored word kept)) :
    ∃ arranged, arranged.Perm kept ∧ (offered entries).Sublist arranged := by
  have arranged := same.map (·.1)
  rw [map_fst_scored] at arranged
  exact ⟨_, arranged, offered_eq ▸ List.take_sublist _ _⟩

theorem offered_foremost {Qualifies : Text → Prop} {Before : Text → Text → Prop}
    (same : entries.Perm (scored word kept))
    (member : ∀ c, c ∈ kept ↔ c ∈ candidates ∧ Qualifies c)
    (sorted : entries.Pairwise fun e f => Before e.1 f.1) :
    Foremost Qualifies Before (offered entries) := by
  rw [offered_eq]
  refine .of_take (fun c => ?_) (List.pairwise_map.mpr sorted)
  rw [(same.map _).mem_iff, map_fst_scored, member]

/-- In an arrangement by score the distances do not fall. -/
theorem distances_ordered (same : entries.Perm (scored word kept))
    (sorted : entries.Pairwise fun e f => e.2 ≤ f.2) :
    entries.Pairwise fun e f =>
      editDistance word e.1.chars ≤ editDistance word f.1.chars := by
  refine sorted.imp_of_mem fun {e f} he hf le => ?_
  rwa [snd_of_mem_scored (same.mem_iff.mp he), snd_of_mem_scored (same.mem_iff.mp hf)] at le

/-- The stable sort leaves equally near candidates in byte order. -/
theorem mergeSort_scored_ordered (nodup : kept.Nodup) (ordered : kept.Pairwise (· < ·)) :
    ((scored word kept).mergeSort fun e f => e.2 ≤ f.2).Pairwise fun e f =>
      Nearer (fun c => editDistance word c.chars) e.1 f.1 := by
  rw [← map_fst_scored word kept] at nodup ordered
  have stable := pairwise_mergeSort_stable (fun e f => e.2 ≤ f.2) ?_ ?_ (.of_map _ nodup)
    (List.pairwise_map.mp ordered)
  · have same := List.mergeSort_perm (scored word kept) fun e f => e.2 ≤ f.2
    refine stable.imp_of_mem fun {e f} he hf near => ?_
    rw [decide_eq_true_eq, decide_eq_true_eq, snd_of_mem_scored (same.mem_iff.mp he),
      snd_of_mem_scored (same.mem_iff.mp hf)] at near
    rcases Nat.lt_or_eq_of_le near.1 with closer | equal
    · exact .inl closer
    · exact .inr ⟨equal, near.2 (Nat.le_of_eq equal.symm)⟩
  · simpa using fun _ _ _ => Nat.le_trans
  · simpa using fun _ _ => Nat.le_total _ _

end

/-- The letters of a word stand in the candidate, in the same order and in any case. -/
def Abbreviates (word c : Text) : Prop :=
  (foldedChars word).Sublist (foldedChars c)

theorem isScattered_folded_iff {word c : Text} :
    isScattered (foldedChars word) (foldedChars c) ↔ Abbreviates word c :=
  isScattered_iff_sublist

section

variable {word : Text} (filled : word ≠ [])
include filled

theorem suggest_of_abbreviates (found : ∃ c ∈ candidates, Abbreviates word c) :
    suggest word = offered (sortByRank (·.2) (scored word.chars
      (candidates.filter fun c => isScattered (foldedChars word) (foldedChars c)))) := by
  have matched :
      candidates.filter (fun c => isScattered (foldedChars word) (foldedChars c)) ≠ [] := by
    obtain ⟨c, known, abbreviates⟩ := found
    exact List.ne_nil_of_mem (List.mem_filter.mpr ⟨known, isScattered_folded_iff.mpr abbreviates⟩)
  simp [suggest, filled, matched]

theorem suggest_of_not_abbreviates (absent : ¬ ∃ c ∈ candidates, Abbreviates word c) :
    suggest word = offered ((scored word.upper.chars
      (candidates.filter fun c => editDistance word.upper.chars c.chars ≤ maxTypos)).mergeSort
        fun e f => e.2 ≤ f.2) := by
  have matched :
      candidates.filter (fun c => isScattered (foldedChars word) (foldedChars c)) = [] := by
    rw [List.filter_eq_nil_iff]
    exact fun c known scattered => absent ⟨c, known, isScattered_folded_iff.mp scattered⟩
  simp [suggest, filled, matched, scored, List.filter_map, Function.comp_def]

theorem foremost_of_abbreviates (found : ∃ c ∈ candidates, Abbreviates word c) :
    Foremost (Abbreviates word)
      (fun c d => editDistance word.chars c.chars ≤ editDistance word.chars d.chars)
      (suggest word) := by
  rw [suggest_of_abbreviates filled found]
  refine offered_foremost (sortByRank_perm _ _) (fun c => ?_)
    (distances_ordered (sortByRank_perm _ _) (pairwise_sortByRank _ _))
  rw [List.mem_filter, isScattered_folded_iff]

theorem foremost_of_not_abbreviates (absent : ¬ ∃ c ∈ candidates, Abbreviates word c) :
    Foremost (fun c => editDistance word.upper.chars c.chars ≤ maxTypos)
      (Nearer fun c => editDistance word.upper.chars c.chars) (suggest word) := by
  rw [suggest_of_not_abbreviates filled absent]
  refine offered_foremost (List.mergeSort_perm _ _) (fun c => ?_)
    (mergeSort_scored_ordered (nodup_candidates.filter _) (candidates_ordered.filter _))
  rw [List.mem_filter, decide_eq_true_eq]

theorem suggest_eq_nil_iff :
    suggest word = [] ↔ ∀ c ∈ candidates,
      ¬ Abbreviates word c ∧ ¬ editDistance word.upper.chars c.chars ≤ maxTypos := by
  by_cases found : ∃ c ∈ candidates, Abbreviates word c
  · rw [(foremost_of_abbreviates filled found).eq_nil_iff]
    grind
  · rw [(foremost_of_not_abbreviates filled found).eq_nil_iff]
    grind

end

/-- Both sorts only arrange candidates, so nothing is offered twice. -/
theorem suggest_distinct (word : Text) :
    (suggest word).length ≤ maxSuggestions ∧ (suggest word).Nodup := by
  by_cases filled : word = []
  · simp [filled, suggest]
  have arranged {chars : List Char} {p : Text → Bool} {entries : List (Text × Nat)}
      (same : entries.Perm (scored chars (candidates.filter p))) :
      (offered entries).length ≤ maxSuggestions ∧ (offered entries).Nodup := by
    obtain ⟨all, perm, front⟩ := offered_sublist same
    exact ⟨length_offered_le, (perm.nodup_iff.mpr (nodup_candidates.filter p)).sublist front⟩
  by_cases found : ∃ c ∈ candidates, Abbreviates word c
  · rw [suggest_of_abbreviates filled found]
    exact arranged (sortByRank_perm _ _)
  · rw [suggest_of_not_abbreviates filled found]
    exact arranged (List.mergeSort_perm _ _)

theorem isRecognized_suggested {word c : Text} (h : c ∈ suggest word) : isRecognized c := by
  by_cases filled : word = []
  · simp [filled, suggest] at h
  by_cases found : ∃ c ∈ candidates, Abbreviates word c
  · exact isRecognized_candidate ((foremost_of_abbreviates filled found).qualify c h).1
  · exact isRecognized_candidate ((foremost_of_not_abbreviates filled found).qualify c h).1

/-- What is offered for a word: at most three distinct spellings, all of them understood. They are
the nearest of those that the word abbreviates, if there are any; otherwise the nearest of those
that are at most two typos away from its upper case, equally near ones in byte order. Nothing is
offered only for the empty word or if no candidate qualifies. -/
theorem suggest_offers_nearest (word : Text) :
    ((suggest word).length ≤ 3 ∧ (suggest word).Nodup ∧ ∀ c ∈ suggest word, isRecognized c) ∧
    (word ≠ [] → (∃ c ∈ candidates, Abbreviates word c) →
      Foremost (Abbreviates word)
        (fun c d => editDistance word.chars c.chars ≤ editDistance word.chars d.chars)
        (suggest word)) ∧
    (word ≠ [] → (¬ ∃ c ∈ candidates, Abbreviates word c) →
      Foremost (fun c => editDistance word.upper.chars c.chars ≤ 2)
        (Nearer fun c => editDistance word.upper.chars c.chars) (suggest word)) ∧
    (suggest word = [] ↔ word = [] ∨ ∀ c ∈ candidates,
      ¬ Abbreviates word c ∧ ¬ editDistance word.upper.chars c.chars ≤ 2) ∧
    ∀ s t : List Char, IsLeast {n | Typos n s t} (editDistance s t) := by
  obtain ⟨few, distinct⟩ := suggest_distinct word
  refine ⟨⟨few, distinct, fun c => isRecognized_suggested⟩, foremost_of_abbreviates,
    foremost_of_not_abbreviates, ?_, isLeast_editDistance⟩
  by_cases filled : word = []
  · subst filled
    exact iff_of_true rfl (.inl rfl)
  · rw [suggest_eq_nil_iff filled]
    simp only [filled, false_or]
    rfl

/-- A word in small letters that more candidates contain than are sorted by insertion. -/
theorem suggest_offers_nearest_scattered :
    let word := utf8 "re"
    word ≠ [] ∧ (∃ c ∈ candidates, Abbreviates word c) ∧
      Foremost (Abbreviates word)
        (fun c d => editDistance word.chars c.chars ≤ editDistance word.chars d.chars)
        (suggest word) ∧
      suggest word = [utf8 "REM", utf8 "BREAK", utf8 "RETURN"] := by
  intro word
  have filled : word ≠ [] := by decide
  let matched : List Text := ["BREAK", "BROWSERBACK", "BROWSERFAVORITES", "BROWSERFORWARD",
    "BROWSERHOME", "BROWSERREFRESH", "BROWSERSEARCH", "BROWSERSTOP", "CTRLLEFT", "PREVTRACK",
    "PRINTSCREEN", "REM", "REPEAT", "RETURN"].map utf8
  have all :
      candidates.filter (fun c => isScattered (foldedChars word) (foldedChars c)) = matched :=
    filter_candidates_eq (by decide +kernel) (by decide +kernel) (by decide +kernel)
  have abbreviates : ∃ c ∈ candidates, Abbreviates word c := by
    have known : utf8 "REM" ∈ matched := by decide +kernel
    rw [← all, List.mem_filter, isScattered_folded_iff] at known
    exact ⟨_, known⟩
  obtain ⟨-, foremost, -⟩ := suggest_offers_nearest word
  refine ⟨filled, abbreviates, foremost filled abbreviates, ?_⟩
  rw [suggest_of_abbreviates filled abbreviates, all]
  have distances : scored word.chars matched =
      matched.zip [5, 11, 16, 14, 11, 14, 13, 11, 8, 9, 11, 3, 6, 6] := by
    decide +kernel
  rw [distances]
  cbv

end KeyScript
