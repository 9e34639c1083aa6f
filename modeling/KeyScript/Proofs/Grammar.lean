import KeyScript.Proofs.Aliases

/-!
The grammar of lines. What a line may say is written down as rules: for numbers,
for the names of keys, for chords, and for whole lines. Reading a line succeeds
exactly if the rules derive something from it, and what it reads is what they
derive. Of the keys that do not resolve the leftmost one is blamed.
-/

namespace KeyScript

namespace Text

/-- The number that decimal digits stand for. -/
def decimalValue (digits : Text) : Nat :=
  digits.foldl (fun n b => n * 10 + (b.toNat - 48)) 0

/-- One or more decimal digits. -/
structure Digits (t : Text) : Prop where
  filled : t ≠ []
  digit : ∀ b ∈ t, isDigit b

/-- A decimal number, with or without a sign. -/
inductive Numeral : Text → Int → Prop where
  | unsigned {t : Text} (digits : t.Digits) : Numeral t t.decimalValue
  | plus {t : Text} (digits : t.Digits) : Numeral (43 :: t) t.decimalValue
  | minus {t : Text} (digits : t.Digits) : Numeral (45 :: t) (-t.decimalValue)

theorem le_foldl_digits (n : Nat) (t : Text) :
    n ≤ t.foldl (fun n b => n * 10 + (b.toNat - 48)) n := by
  induction t generalizing n with
  | nil => exact Nat.le_refl n
  | cons b t ih => exact Nat.le_trans (by omega) (ih (n * 10 + (b.toNat - 48)))

theorem readDigits_of_isDigit {b : UInt8} (digit : isDigit b = true) (n : Nat) (t : Text) :
    readDigits 10 false n (b :: t) =
      if n * 10 + (b.toNat - 48) < 18446744073709551616 then
        readDigits 10 false (n * 10 + (b.toNat - 48)) t
      else .error .outOfRange := by
  have range : b.toNat ≤ 57 := by
    simp only [isDigit, Bool.and_eq_true, decide_eq_true_eq, UInt8.le_iff_toNat_le] at digit
    exact digit.2
  have small : ¬ 10 ≤ b.toNat - 48 := by omega
  simp [readDigits, digitValue, digit, small]

theorem readDigits_of_not_isDigit {b : UInt8} (other : isDigit b = false) (n : Nat) (t : Text) :
    readDigits 10 false n (b :: t) = .error .syntaxFault := by
  simp only [readDigits, digitValue, other, Bool.false_and, Bool.false_eq_true, if_false]
  split
  · rfl
  · rename_i d value
    split at value
    · rename_i letter
      simp only [Bool.and_eq_true, decide_eq_true_eq, UInt8.le_iff_toNat_le] at letter
      have low : 97 ≤ (lowerByte b).toNat := letter.1
      have large : 10 ≤ d := by
        cases value
        omega
      rw [if_pos large]
    · cases value

/-- Digits are read to their value as long as it fits 64 bits; it never gets smaller. -/
theorem readDigits_eq_ok_iff {n m : Nat} (fits : n < 18446744073709551616) {t : Text} :
    readDigits 10 false n t = .ok m ↔
      (∀ b ∈ t, isDigit b) ∧ m = t.foldl (fun n b => n * 10 + (b.toNat - 48)) n ∧
        m < 18446744073709551616 := by
  induction t generalizing n with
  | nil =>
      simp only [readDigits, Except.ok.injEq, List.foldl_nil]
      constructor
      · rintro rfl
        exact ⟨fun b hb => absurd hb List.not_mem_nil, rfl, fits⟩
      · exact fun h => h.2.1.symm
  | cons b t ih =>
      rw [List.forall_mem_cons, List.foldl_cons]
      cases digit : isDigit b with
      | false =>
          rw [readDigits_of_not_isDigit digit]
          simp
      | true =>
          rw [readDigits_of_isDigit digit]
          split
          · rename_i small
            rw [ih small, and_iff_right rfl]
          · rename_i large
            have grows := le_foldl_digits (n * 10 + (b.toNat - 48)) t
            refine iff_of_false (fun h => by cases h) ?_
            rintro ⟨-, rfl, below⟩
            exact large (Nat.lt_of_le_of_lt grows below)

theorem readNatIn_eq_ok_iff {t : Text} {n : Nat} :
    readNatIn 10 t = .ok n ↔
      t.Digits ∧ n = t.decimalValue ∧ n < 18446744073709551616 := by
  rw [readNatIn]
  split
  · rename_i empty
    refine iff_of_false (fun h => by cases h) ?_
    exact fun h => h.1.filled (List.isEmpty_iff.mp empty)
  · rename_i filled
    rw [readDigits_eq_ok_iff (by decide)]
    constructor
    · rintro ⟨digit, value⟩
      exact ⟨⟨fun none => filled (List.isEmpty_iff.mpr none), digit⟩, value⟩
    · rintro ⟨digits, value⟩
      exact ⟨digits.digit, value⟩

theorem readDecimal_minus_iff {t : Text} {v : Int} :
    readDecimal (45 :: t) = .ok v ↔
      t.Digits ∧ v = -t.decimalValue ∧ -9223372036854775808 ≤ v := by
  have sign : dropSign (45 :: t) = t := rfl
  simp only [readDecimal, readIntIn, readSigned, sign, List.head?_cons, beq_self_eq_true, if_true]
  constructor
  · intro h
    split at h
    · cases h
    · rename_i n read
      obtain ⟨digits, rfl, -⟩ := readNatIn_eq_ok_iff.mp read
      split at h
      · cases h
        exact ⟨digits, rfl, by omega⟩
      · cases h
  · rintro ⟨digits, rfl, low⟩
    have read : readNatIn 10 t = .ok t.decimalValue :=
      readNatIn_eq_ok_iff.mpr ⟨digits, rfl, by omega⟩
    rw [read]
    exact if_pos (by omega)

theorem readDecimal_of_head_ne {t : Text} (sign : t.head? ≠ some 45) {v : Int} :
    readDecimal t = .ok v ↔
      (dropSign t).Digits ∧ v = (dropSign t).decimalValue ∧ v < 9223372036854775808 := by
  have positive : (t.head? == some 45) = false := beq_eq_false_iff_ne.mpr sign
  simp only [readDecimal, readIntIn, readSigned, positive, Bool.false_eq_true, if_false]
  constructor
  · intro h
    split at h
    · cases h
    · rename_i n read
      obtain ⟨digits, rfl, -⟩ := readNatIn_eq_ok_iff.mp read
      split at h
      · cases h
        exact ⟨digits, rfl, by omega⟩
      · cases h
  · rintro ⟨digits, rfl, high⟩
    have read : readNatIn 10 (dropSign t) = .ok (dropSign t).decimalValue :=
      readNatIn_eq_ok_iff.mpr ⟨digits, rfl, by omega⟩
    rw [read]
    exact if_pos (by omega)

theorem Digits.dropSign_eq {t : Text} (h : t.Digits) : dropSign t = t ∧ t.head? ≠ some 45 := by
  obtain ⟨b, t, rfl⟩ := List.exists_cons_of_ne_nil h.filled
  have digit : isDigit b = true := h.digit b List.mem_cons_self
  have plus : b ≠ 43 := by
    rintro rfl
    cases digit
  have minus : b ≠ 45 := by
    rintro rfl
    cases digit
  simp [dropSign, plus, minus]

theorem readDecimal_eq_ok_iff {t : Text} {v : Int} :
    readDecimal t = .ok v ↔ Numeral t v ∧ IsInt64 v := by
  constructor
  · intro h
    by_cases sign : t.head? = some 45
    · obtain ⟨u, rfl⟩ := List.head?_eq_some_iff.mp sign
      obtain ⟨digits, rfl, low⟩ := readDecimal_minus_iff.mp h
      exact ⟨.minus digits, low, by omega⟩
    · obtain ⟨digits, rfl, high⟩ := (readDecimal_of_head_ne sign).mp h
      refine ⟨?_, by omega, Int.le_of_lt_add_one high⟩
      cases t with
      | nil => exact .unsigned digits
      | cons b t =>
          by_cases plus : b = 43
          · subst plus
            exact .plus digits
          · have kept : dropSign (b :: t) = b :: t := by
              have minus : b ≠ 45 := fun same => sign (congrArg some same)
              simp [dropSign, plus, minus]
            rw [kept] at digits ⊢
            exact .unsigned digits
  · rintro ⟨numeral, low, top⟩
    have high : v < 9223372036854775808 := Int.lt_add_one_of_le top
    cases numeral with
    | unsigned digits =>
        obtain ⟨kept, sign⟩ := digits.dropSign_eq
        rw [readDecimal_of_head_ne sign, kept]
        exact ⟨digits, rfl, high⟩
    | plus digits =>
        exact (readDecimal_of_head_ne (by simp)).mpr ⟨digits, rfl, high⟩
    | minus digits => exact readDecimal_minus_iff.mpr ⟨digits, rfl, low⟩

end Text

/-- A number with blanks around it that is a length of a wait. -/
def Counts (argument : Text) (n : Nat) : Prop :=
  argument.trim.Numeral n ∧ n ≤ maxMillis

theorem readCount_eq_ok_iff {argument : Text} {n : Nat} :
    readCount argument = .ok n ↔ Counts argument n := by
  rw [Counts]
  constructor
  · intro h
    refine ⟨?_, readCount_le h⟩
    simp only [readCount] at h
    split at h
    · cases h
    · rename_i v read
      split at h
      · cases h
      · split at h
        · cases h
        · cases h
          rw [Int.toNat_of_nonneg (by omega)]
          exact (Text.readDecimal_eq_ok_iff.mp read).1
  · rintro ⟨numeral, small⟩
    rw [maxMillis] at small
    have read : argument.trim.readDecimal = .ok (n : Int) :=
      Text.readDecimal_eq_ok_iff.mpr ⟨numeral, by omega, by omega⟩
    simp only [readCount, read]
    rw [if_neg (by omega), if_neg (by rw [maxMillis]; omega), Int.toNat_natCast]

section Keys

theorem lookup_eq_some_iff {table : List (Text × Text)} (distinct : (table.map Prod.fst).Nodup)
    {word target : Text} : table.lookup word = some target ↔ (word, target) ∈ table := by
  refine ⟨mem_of_lookup, fun member => ?_⟩
  obtain ⟨front, back, rfl⟩ := List.append_of_mem member
  refine List.lookup_eq_some_iff.mpr ⟨front, back, rfl, ?_⟩
  intro pair hp
  rw [List.map_append, List.map_cons, List.nodup_append] at distinct
  have apart := distinct.2.2 pair.1 (List.mem_map_of_mem hp) word List.mem_cons_self
  simpa using Ne.symm apart

/-- The alternate spellings of words, undone: a word that is none stands for itself. -/
def StandsFor (word target : Text) : Prop :=
  (word, target) ∈ aliases ∨ (target = word ∧ ∀ other, (word, other) ∉ aliases)

theorem canonical_eq_iff {word target : Text} :
    canonical word = target ↔ StandsFor word target := by
  have distinct : (aliases.map Prod.fst).Nodup := by decide +kernel
  have listed (other : Text) : aliases.lookup word = some other ↔ (word, other) ∈ aliases :=
    lookup_eq_some_iff distinct
  simp only [StandsFor, ← listed, canonical]
  cases aliases.lookup word with
  | some other => simp
  | none => simp [eq_comm]

/-- The key that one part of a chord names. -/
inductive Names (part : Text) : Text → Prop where
  | renamed {word name : Text} (stands : StandsFor part word)
      (entry : (word, name) ∈ renamedKeys) (key : name ∈ Key.names) : Names part name
  | lower {word : Text} (stands : StandsFor part word)
      (other : ∀ name, (word, name) ∉ renamedKeys) (key : word.lower ∈ Key.names) :
      Names part word.lower

theorem keyOfPart_eq_some_iff {part name : Text} :
    keyOfPart part = some name ↔ Names part name := by
  have distinct : (renamedKeys.map Prod.fst).Nodup := by decide +kernel
  have stands : StandsFor part (canonical part) := canonical_eq_iff.mp rfl
  constructor
  · intro h
    have key := List.contains_iff_mem.mp (isName_of_keyOfPart h)
    simp only [keyOfPart] at h
    split at h
    · cases found : renamedKeys.lookup (canonical part) with
      | some entry =>
          simp only [found, Option.getD_some, Option.some.injEq] at h
          subst h
          exact .renamed stands (mem_of_lookup found) key
      | none =>
          simp only [found, Option.getD_none, Option.some.injEq] at h
          subst h
          refine .lower stands (fun name entry => ?_) key
          rw [(lookup_eq_some_iff distinct).mpr entry] at found
          cases found
    · cases h
  · intro h
    cases h with
    | renamed stands entry key =>
        have named : Key.isName name = true := List.contains_iff_mem.mpr key
        simp [keyOfPart, canonical_eq_iff.mpr stands, (lookup_eq_some_iff distinct).mpr entry, named]
    | @lower word stands other key =>
        have named : Key.isName word.lower = true := List.contains_iff_mem.mpr key
        have none : renamedKeys.lookup word = none := by
          cases found : renamedKeys.lookup word with
          | none => rfl
          | some name => exact absurd (mem_of_lookup found) (other name)
        simp [keyOfPart, canonical_eq_iff.mpr stands, none, named]

/-- A chord: keys named by parts with a hyphen between two of them. -/
inductive Chord : Text → List Text → Prop where
  | last {part key : Text} (free : hyphen ∉ part) (names : Names part key) : Chord part [key]
  | more {part key rest : Text} {keys : List Text} (free : hyphen ∉ part)
      (names : Names part key) (later : Chord rest keys) :
      Chord (part ++ hyphen :: rest) (key :: keys)

theorem keysOf_of_notMem {part : Text} (free : hyphen ∉ part) :
    keysOf part = (keyOfPart part).map ([·]) := by
  rw [keysOf, keysOfParts, Text.split_of_notMem free]
  cases h : keyOfPart part <;> simp [h]

theorem keysOf_append_cons {part : Text} (free : hyphen ∉ part) (rest : Text) :
    keysOf (part ++ hyphen :: rest) =
      (keyOfPart part).bind fun key => (keysOf rest).map (key :: ·) := by
  rw [keysOf, keysOfParts, Text.split_append_cons free, keysOf, keysOfParts, List.map_cons,
    List.mapM_cons]
  cases keyOfPart part with
  | none => rfl
  | some key => cases ((rest.split hyphen).map keyOfPart).mapM id <;> rfl

theorem keysOf_eq_some_iff {word : Text} {keys : List Text} :
    keysOf word = some keys ↔ Chord word keys := by
  constructor
  · intro h
    induction word using Text.split_induction hyphen generalizing keys with
    | part word free =>
        rw [keysOf_of_notMem free, Option.map_eq_some_iff] at h
        obtain ⟨key, names, rfl⟩ := h
        exact .last free (keyOfPart_eq_some_iff.mp names)
    | cut part rest free ih =>
        rw [keysOf_append_cons free, Option.bind_eq_some_iff] at h
        obtain ⟨key, names, h⟩ := h
        obtain ⟨more, later, rfl⟩ := Option.map_eq_some_iff.mp h
        exact .more free (keyOfPart_eq_some_iff.mp names) (ih later)
  · intro h
    induction h with
    | last free names => rw [keysOf_of_notMem free, keyOfPart_eq_some_iff.mpr names]; rfl
    | more free names later ih =>
        rw [keysOf_append_cons free, keyOfPart_eq_some_iff.mpr names, ih]
        rfl

/-- The keys of the words of a line, one chord after another. -/
inductive Presses : List Text → List Text → Prop where
  | nil : Presses [] []
  | cons {word : Text} {words keys more : List Text} (chord : Chord word keys)
      (later : Presses words more) : Presses (word :: words) (keys ++ more)

theorem readKeys_eq_ok_iff {words keys : List Text} :
    readKeys words = .ok keys ↔ Presses words keys := by
  constructor
  · intro h
    induction words generalizing keys with
    | nil =>
        cases h
        exact .nil
    | cons word words ih =>
        obtain ⟨first, more, chord, later, rfl⟩ := readKeys_cons h
        exact .cons (keysOf_eq_some_iff.mp chord) (ih later)
  · intro h
    induction h with
    | nil => rfl
    | cons chord later ih => rw [readKeys, keysOf_eq_some_iff.mpr chord, ih]

/-- A word all of whose parts name keys. -/
def Resolves (word : Text) : Prop :=
  ∃ keys, Chord word keys

theorem Presses.resolves_first {first : Text} {rest keys : List Text}
    (h : Presses (first :: rest) keys) : Resolves first := by
  cases h with
  | cons chord later => exact ⟨_, chord⟩

theorem keysOf_eq_none_iff {word : Text} : keysOf word = none ↔ ¬ Resolves word := by
  rw [Option.eq_none_iff_forall_ne_some, Resolves, not_exists]
  simp only [Ne, keysOf_eq_some_iff]

/-- The word that is blamed is the leftmost one that does not resolve. -/
theorem readKeys_eq_error_iff {words : List Text} {bad : Text} :
    readKeys words = .error bad ↔
      ∃ front back, words = front ++ bad :: back ∧ (∀ word ∈ front, Resolves word) ∧
        ¬ Resolves bad := by
  constructor
  · intro h
    induction words with
    | nil => cases h
    | cons word words ih =>
        cases chord : keysOf word with
        | none =>
            simp only [readKeys, chord, Except.error.injEq] at h
            subst h
            refine ⟨[], words, rfl, ?_, keysOf_eq_none_iff.mp chord⟩
            exact fun word hw => absurd hw List.not_mem_nil
        | some keys =>
            have later : readKeys words = .error bad := by
              cases rest : readKeys words with
              | ok more => simp [readKeys, chord, rest] at h
              | error other => simpa [readKeys, chord, rest] using h
            obtain ⟨front, back, rfl, resolved, broken⟩ := ih later
            refine ⟨word :: front, back, rfl, ?_, broken⟩
            exact List.forall_mem_cons.mpr ⟨⟨keys, keysOf_eq_some_iff.mp chord⟩, resolved⟩
  · rintro ⟨front, back, rfl, resolved, broken⟩
    induction front with
    | nil => rw [List.nil_append, readKeys, keysOf_eq_none_iff.mpr broken]
    | cons word front ih =>
        obtain ⟨⟨keys, chord⟩, others⟩ := List.forall_mem_cons.mp resolved
        rw [List.cons_append, readKeys, keysOf_eq_some_iff.mpr chord, ih others]

theorem lowerChar_eq_hyphen {c : Char} (h : lowerChar c = '-') : c = '-' := by
  cases lowerChar_cases c with
  | inl same => exact same.symm.trans h
  | inr letter =>
      have low : 97 ≤ (lowerChar c).toNat := letter.2.1
      rw [h] at low
      exact absurd low (by decide)

theorem Text.lower_eq_hyphen {t : Text} (h : t.lower = [hyphen]) : t = [hyphen] := by
  have glyphs := t.glyphs_lower
  have single : Text.glyphs [hyphen] = [.char '-'] := by decide
  rw [h, single] at glyphs
  obtain ⟨g, only, same⟩ := List.map_eq_singleton_iff.mp glyphs.symm
  have back := t.ofGlyphs_glyphs
  rw [only] at back
  cases g with
  | stray b =>
      have replaced : lowerChar (Glyph.stray b).toChar = '-' := Glyph.char.inj same
      cases replaced
  | char c =>
      have hc : c = '-' := lowerChar_eq_hyphen (Glyph.char.inj same)
      rw [← back, hc]
      decide

/-- No part of a chord has a hyphen in it, so no key of a chord is the hyphen. -/
theorem Names.ne_hyphen {part key : Text} (free : hyphen ∉ part) (h : Names part key) :
    key ≠ [hyphen] := by
  have targets : ∀ pair ∈ aliases, pair.2 ≠ [hyphen] := by decide +kernel
  have renamed : ∀ pair ∈ renamedKeys, pair.2 ≠ [hyphen] := by decide +kernel
  cases h with
  | renamed stands entry key => exact renamed _ entry
  | lower stands other key =>
      intro same
      rw [Text.lower_eq_hyphen same] at stands
      cases stands with
      | inl entry => exact targets _ entry rfl
      | inr itself => exact free (itself.1 ▸ List.mem_singleton_self _)

theorem Presses.ne_hyphen {words keys : List Text} (h : Presses words keys) :
    ∀ key ∈ keys, key ≠ [hyphen] := by
  have chords {word : Text} {keys : List Text} (h : Chord word keys) :
      ∀ key ∈ keys, key ≠ [hyphen] := by
    induction h with
    | last free names => exact List.forall_mem_singleton.mpr (names.ne_hyphen free)
    | more free names later ih => exact List.forall_mem_cons.mpr ⟨names.ne_hyphen free, ih⟩
  induction h with
  | nil => exact fun key hk => absurd hk List.not_mem_nil
  | cons chord later ih => exact List.forall_mem_append.mpr ⟨chords chord, ih⟩

end Keys

/-- The first word of a line, which ends at the first space, and what follows that space. -/
inductive Leads : Text → Text → Text → Prop where
  | alone {word : Text} (free : 32 ∉ word) : Leads word word []
  | before {word rest : Text} (free : 32 ∉ word) : Leads (word ++ 32 :: rest) word rest

theorem leads_iff {t word rest : Text} :
    Leads t word rest ↔ (t.cut 32).1 = word ∧ (t.cut 32).2.getD [] = rest := by
  constructor
  · intro h
    cases h with
    | alone free =>
        rw [Text.cut_of_notMem free]
        exact ⟨rfl, rfl⟩
    | before free =>
        rw [Text.cut_append free]
        exact ⟨rfl, rfl⟩
  · rintro ⟨rfl, rfl⟩
    by_cases found : 32 ∈ t
    · obtain ⟨word, rest, rfl, free⟩ := List.eq_append_cons_of_mem found
      rw [Text.cut_append free]
      exact .before free
    · rw [Text.cut_of_notMem found]
      exact .alone found

theorem Leads.word_unique {t word word' rest rest' : Text} (h : Leads t word rest)
    (h' : Leads t word' rest') : word = word' :=
  (leads_iff.mp h).1.symm.trans (leads_iff.mp h').1

/-- The first word goes on to the first space, wherever that is. -/
theorem exists_leads_append {front : Text} (free : 32 ∉ front) (t : Text) :
    ∃ more rest, Leads (front ++ t) (front ++ more) rest := by
  by_cases found : 32 ∈ t
  · obtain ⟨more, rest, rfl, clear⟩ := List.eq_append_cons_of_mem found
    refine ⟨more, rest, ?_⟩
    rw [← List.append_assoc]
    exact .before fun h => (List.mem_append.mp h).elim free clear
  · exact ⟨t, [], .alone fun h => (List.mem_append.mp h).elim free found⟩

theorem Leads.ne_nil {t word rest : Text} (h : Leads t word rest) (filled : word ≠ []) :
    t ≠ [] := by
  cases h with
  | alone free => exact filled
  | before free => exact List.append_ne_nil_of_left_ne_nil filled _

/-- The words that a verb may be written as. -/
def Keyword.spellings : Keyword → List Text
  | .rem => [utf8 "REM"]
  | .string => [utf8 "STRING"]
  | .delay => [utf8 "DELAY"]
  | .defaultDelay => [utf8 "DEFAULT_DELAY", utf8 "DEFAULTDELAY"]
  | .again => [utf8 "REPEAT"]

theorem Keyword.spellings_ne_nil {kind : Keyword} {word : Text} (h : word ∈ kind.spellings) :
    word ≠ [] := by
  have filled : ∀ word ∈ kind.spellings, word ≠ [] := by cases kind <;> decide +kernel
  exact filled word h

theorem keyword?_canonical_eq_some_iff {word : Text} {kind : Keyword} :
    keyword? (canonical word) = some kind ↔ word ∈ kind.spellings := by
  have direct : keyword? word = some kind → word ∈ kind.spellings := by
    intro h
    simp only [keyword?] at h
    repeat' split at h
    all_goals cases h
    all_goals simp_all [Keyword.spellings]
  have aliased : ∀ pair ∈ aliases, keyword? pair.2 = some kind → pair.1 ∈ kind.spellings := by
    cases kind <;> decide +kernel
  have spelled : ∀ word ∈ kind.spellings, keyword? (canonical word) = some kind := by
    cases kind <;> decide +kernel
  refine ⟨fun h => ?_, spelled word⟩
  cases canonical_cases word with
  | inl same => exact direct (same ▸ h)
  | inr entry => exact aliased _ entry h

theorem keyword?_canonical_eq_none_iff {word : Text} :
    keyword? (canonical word) = none ↔ ∀ kind : Keyword, word ∉ kind.spellings := by
  rw [Option.eq_none_iff_forall_ne_some]
  simp only [Ne, keyword?_canonical_eq_some_iff]

theorem isRecognized_of_spelled {word : Text} {kind : Keyword} (h : word ∈ kind.spellings) :
    isRecognized word = true := by
  have verb : isVerbWord (canonical word) = true := by
    rw [← Bool.not_eq_false]
    intro other
    exact keyword?_canonical_eq_none_iff.mp (keyword?_eq_none other) kind h
  rw [isRecognized, verb, Bool.true_or]

theorem isRecognized_of_other {word : Text} (h : ∀ kind : Keyword, word ∉ kind.spellings) :
    isRecognized word = true ↔ Resolves word := by
  have verb : isVerbWord (canonical word) = false := by
    rw [← Bool.not_eq_true]
    intro verb
    exact keyword?_ne_none verb (keyword?_canonical_eq_none_iff.mpr h)
  rw [isRecognized, verb, Bool.false_or, Option.isSome_iff_exists, Resolves]
  simp only [keysOf_eq_some_iff]

/-- A line that begins with a verb is recognized for that verb. -/
theorem Leads.verb {t word rest : Text} (h : Leads t word rest) {kind : Keyword}
    (spelled : word ∈ kind.spellings) :
    isRecognized (t.cut 32).1 = true ∧ keyword? (canonical (t.cut 32).1) = some kind ∧
      (t.cut 32).2.getD [] = rest := by
  obtain ⟨rfl, rfl⟩ := leads_iff.mp h
  exact ⟨isRecognized_of_spelled spelled, keyword?_canonical_eq_some_iff.mpr spelled, rfl⟩

/-- What a line says, in all the fields that a command has for it. -/
structure Content where
  verb : Verb
  text : Text := []
  millis : Nat := 0
  count : Nat := 0
  keys : List Text := []
  skipsDelay : Bool := false
deriving DecidableEq

def Command.content (c : Command) : Content :=
  ⟨c.verb, c.text, c.millis, c.count, c.keys, c.skipsDelay⟩

/-- The rules for a trimmed line. Two of the verbs are for scripts only. -/
inductive Reads (inScript : Bool) (t : Text) : Content → Prop where
  | comment {word rest : Text} (leads : Leads t word rest)
      (spelled : word ∈ Keyword.rem.spellings) :
      Reads inScript t { verb := .comment, text := rest, skipsDelay := true }
  | typeText {word rest : Text} (leads : Leads t word rest)
      (spelled : word ∈ Keyword.string.spellings) :
      Reads inScript t { verb := .typeText, text := rest }
  | delay {word rest : Text} {ms : Nat} (leads : Leads t word rest)
      (spelled : word ∈ Keyword.delay.spellings) (counts : Counts rest ms) :
      Reads inScript t { verb := .delay, millis := ms }
  | setDefaultDelay {word rest : Text} {ms : Nat} (script : inScript)
      (leads : Leads t word rest) (spelled : word ∈ Keyword.defaultDelay.spellings)
      (counts : Counts rest ms) : Reads inScript t { verb := .setDefaultDelay, millis := ms }
  | again {word rest : Text} {n : Nat} (script : inScript) (leads : Leads t word rest)
      (spelled : word ∈ Keyword.again.spellings) (counts : Counts rest n) :
      Reads inScript t { verb := .again, count := n }
  | press {word rest : Text} {keys : List Text} (leads : Leads t word rest)
      (other : ∀ kind : Keyword, word ∉ kind.spellings) (first : Resolves word)
      (presses : Presses t.fields keys) : Reads inScript t { verb := .press, keys := keys }

namespace Statement

/-- The command that a statement is at its place in a script. -/
def place (raw : Text) (line : Int) (recent : List Command) : Statement → Command
  | .plain deed => .plain raw line deed
  | .again count => .again raw line count ((recent.find? fun c => c.line < line).getD .nothing)

def content : Statement → Content
  | .plain deed => ⟨deed.verb, deed.text, deed.millis, 0, deed.keys, deed.verb == .comment⟩
  | .again count => { verb := .again, count := count }

theorem content_place (s : Statement) (raw : Text) (line : Int) (recent : List Command) :
    (s.place raw line recent).content = s.content := by
  cases s <;> rfl

/-- A line that starts with no verb is a line of keys: its first word and all of its fields have
to resolve. -/
theorem read_eq_ok_iff_of_other {inScript : Bool} {t word rest : Text} (leads : Leads t word rest)
    (other : ∀ kind : Keyword, word ∉ kind.spellings) {s : Statement} :
    Statement.read inScript t = .ok s ↔
      Resolves word ∧ ∃ keys, Presses t.fields keys ∧ s = .plain (.press keys) := by
  obtain ⟨rfl, rfl⟩ := leads_iff.mp leads
  have verb := keyword?_canonical_eq_none_iff.mpr other
  simp only [Statement.read, verb, ← isRecognized_of_other other, ← readKeys_eq_ok_iff]
  cases isRecognized (t.cut 32).1 with
  | false => simp
  | true => cases readKeys t.fields <;> simp [eq_comm]

theorem reads_of_read {inScript : Bool} {t : Text} {s : Statement}
    (h : Statement.read inScript t = .ok s) : Reads inScript t s.content := by
  have leads := (leads_iff (t := t)).mpr ⟨rfl, rfl⟩
  cases kind : keyword? (canonical (t.cut 32).1) with
  | none =>
      have other := keyword?_canonical_eq_none_iff.mp kind
      obtain ⟨first, keys, presses, rfl⟩ := (read_eq_ok_iff_of_other leads other).mp h
      exact .press leads other first presses
  | some verb =>
      have spelled := keyword?_canonical_eq_some_iff.mp kind
      simp only [Statement.read, isRecognized_of_spelled spelled, kind, Bool.not_true,
        Bool.false_eq_true, if_false] at h
      cases verb with
      | rem =>
          cases h
          exact .comment leads spelled
      | string =>
          cases h
          exact .typeText leads spelled
      | delay =>
          simp only at h
          split at h
          · cases h
          · cases h
            exact .delay leads spelled (readCount_eq_ok_iff.mp ‹_›)
      | defaultDelay =>
          cases inScript with
          | false => cases h
          | true =>
              simp only [Bool.not_true, Bool.false_eq_true, if_false] at h
              split at h
              · cases h
              · cases h
                exact .setDefaultDelay rfl leads spelled (readCount_eq_ok_iff.mp ‹_›)
      | again =>
          cases inScript with
          | false => cases h
          | true =>
              simp only [Bool.not_true, Bool.false_eq_true, if_false] at h
              split at h
              · cases h
              · cases h
                exact .again rfl leads spelled (readCount_eq_ok_iff.mp ‹_›)

theorem read_of_reads {inScript : Bool} {t : Text} {content : Content}
    (h : Reads inScript t content) :
    ∃ s, Statement.read inScript t = .ok s ∧ s.content = content := by
  cases h with
  | comment leads spelled =>
      obtain ⟨known, verb, after⟩ := leads.verb spelled
      exact ⟨.plain (.comment _), by simp [Statement.read, known, verb, after], rfl⟩
  | typeText leads spelled =>
      obtain ⟨known, verb, after⟩ := leads.verb spelled
      exact ⟨.plain (.typeText _), by simp [Statement.read, known, verb, after], rfl⟩
  | delay leads spelled counts =>
      obtain ⟨known, verb, after⟩ := leads.verb spelled
      have read := readCount_eq_ok_iff.mpr counts
      exact ⟨.plain (.delay _), by simp [Statement.read, known, verb, after, read], rfl⟩
  | setDefaultDelay script leads spelled counts =>
      obtain ⟨known, verb, after⟩ := leads.verb spelled
      have read := readCount_eq_ok_iff.mpr counts
      exact ⟨.plain (.setDefaultDelay _),
        by simp [Statement.read, known, verb, after, read, script], rfl⟩
  | again script leads spelled counts =>
      obtain ⟨known, verb, after⟩ := leads.verb spelled
      have read := readCount_eq_ok_iff.mpr counts
      exact ⟨.again _, by simp [Statement.read, known, verb, after, read, script], rfl⟩
  | press leads other first presses =>
      exact ⟨_, (read_eq_ok_iff_of_other leads other).mpr ⟨first, _, presses, rfl⟩, rfl⟩

/-- Of a line of keys that is refused, a word that does not resolve is blamed. -/
theorem read_of_broken {inScript : Bool} {t word rest bad : Text} (leads : Leads t word rest)
    (other : ∀ kind : Keyword, word ∉ kind.spellings) (first : Resolves word)
    (broken : readKeys t.fields = .error bad) :
    Statement.read inScript t = .error (.unknownKey bad) := by
  obtain ⟨rfl, rfl⟩ := leads_iff.mp leads
  simp [Statement.read, (isRecognized_of_other other).mpr first,
    keyword?_canonical_eq_none_iff.mpr other, broken]

theorem read_scriptOnly {t word rest : Text} (leads : Leads t word rest)
    {kind : Keyword} (script : kind = .defaultDelay ∨ kind = .again)
    (spelled : word ∈ kind.spellings) : Statement.read false t = .error (.scriptOnly word) := by
  obtain ⟨known, verb, -⟩ := leads.verb spelled
  rw [← (leads_iff.mp leads).1]
  cases script with
  | inl set =>
      subst set
      simp [Statement.read, known, verb]
  | inr again =>
      subst again
      simp [Statement.read, known, verb]

end Statement

section Lines

variable {raw : Text} {line : Int} {before : Option (List Command)}

/-- The number of a line matters to repetitions only. -/
theorem parse_of_read_plain {deed : Deed} (written : raw.trim ≠ [])
    (read : Statement.read before.isSome raw.trim = .ok (.plain deed)) :
    Command.parse raw line before = .ok (.plain raw.trim line deed) := by
  have filled : raw.trim.isEmpty = false := by simpa using written
  simp [Command.parse, filled, read]

theorem parse_of_read_ok {s : Statement} (written : raw.trim ≠ []) (nonneg : 0 ≤ line)
    (read : Statement.read before.isSome raw.trim = .ok s) :
    Command.parse raw line before = .ok (s.place raw.trim line (before.getD [])) := by
  have filled : raw.trim.isEmpty = false := by simpa using written
  cases s with
  | plain deed => exact parse_of_read_plain written read
  | again count =>
      simp [Command.parse, filled, read, previous_of_nonneg _ nonneg, Statement.place]

theorem parse_of_read_error {problem : Problem} (written : raw.trim ≠ [])
    (read : Statement.read before.isSome raw.trim = .error problem) :
    Command.parse raw line before = .error (.rejected ⟨line, raw.trim, problem⟩) := by
  have filled : raw.trim.isEmpty = false := by simpa using written
  simp [Command.parse, filled, read]

theorem parse_eq_ok_iff (nonneg : 0 ≤ line) {c : Command} :
    Command.parse raw line before = .ok c ↔
      raw.trim ≠ [] ∧ ∃ s, Statement.read before.isSome raw.trim = .ok s ∧
        c = s.place raw.trim line (before.getD []) := by
  constructor
  · intro h
    have written := parse_trim_ne_nil h
    refine ⟨written, ?_⟩
    cases read : Statement.read before.isSome raw.trim with
    | error problem =>
        rw [parse_of_read_error written read] at h
        cases h
    | ok s =>
        rw [parse_of_read_ok written nonneg read] at h
        exact ⟨s, rfl, (Except.ok.inj h).symm⟩
  · rintro ⟨written, s, read, rfl⟩
    exact parse_of_read_ok written nonneg read

theorem Resolves.ne_nil {word : Text} (h : Resolves word) : word ≠ [] := by
  rintro rfl
  exact keysOf_eq_none_iff.mp (by decide +kernel) h

theorem press_keys {inScript : Bool} {keys : List Text} (written : raw.trim ≠ [])
    (read : Statement.read inScript raw.trim = .ok (.plain (.press keys))) :
    keys ≠ [] ∧ ∀ key ∈ keys, key.Solid ∧ key ≠ [hyphen] := by
  have keysRead := read_press read
  refine ⟨readKeys_ne_nil (Text.fields_ne_nil_of_trim written) keysRead, fun key hk => ?_⟩
  exact ⟨solid_of_mem_keys keysRead key hk, (readKeys_eq_ok_iff.mp keysRead).ne_hyphen key hk⟩

/-- A line that starts with a word for keys is refused for its leftmost word that is none. -/
theorem parse_error_of_resolves (nonneg : 0 ≤ line) {word rest : Text}
    (leads : Leads raw.trim word rest) (other : ∀ kind : Keyword, word ∉ kind.spellings)
    (first : Resolves word) {fault : ParseFault}
    (refused : Command.parse raw line before = .error fault) :
    ∃ front bad back, raw.trim.fields = front ++ bad :: back ∧
      (∀ field ∈ front, Resolves field) ∧ ¬ Resolves bad ∧
      fault = .rejected ⟨line, raw.trim, .unknownKey bad⟩ := by
  have written := leads.ne_nil first.ne_nil
  cases keysRead : readKeys raw.trim.fields with
  | ok keys =>
      have reads : Reads before.isSome raw.trim _ :=
        .press leads other first (readKeys_eq_ok_iff.mp keysRead)
      obtain ⟨s, read, -⟩ := Statement.read_of_reads reads
      rw [parse_of_read_ok written nonneg read] at refused
      cases refused
  | error bad =>
      obtain ⟨front, back, fields, resolved, broken⟩ := readKeys_eq_error_iff.mp keysRead
      rw [parse_of_read_error written (Statement.read_of_broken leads other first keysRead)]
        at refused
      exact ⟨front, bad, back, fields, resolved, broken, (Except.error.inj refused).symm⟩

/-- Reading a line accepts exactly what the rules derive, and gives what they derive; the line is
kept as it was trimmed. The keys of a line are at least one and have names without a blank, and
none is the hyphen. A line of keys whose first word resolves is refused for the leftmost word that
does not, and the verbs of scripts are refused outside of one. -/
theorem line_grammar_exact (nonneg : 0 ≤ line) (raw : Text) (before : Option (List Command)) :
    (∀ content, (∃ c, Command.parse raw line before = .ok c ∧ c.content = content) ↔
      raw.trim ≠ [] ∧ Reads before.isSome raw.trim content) ∧
    (∀ c, Command.parse raw line before = .ok c →
      c.raw = raw.trim ∧ c.line = line ∧
        (c.verb = .press → c.keys ≠ [] ∧ ∀ key ∈ c.keys, key.Solid ∧ key ≠ [hyphen])) ∧
    (∀ word rest, Leads raw.trim word rest → (∀ kind : Keyword, word ∉ kind.spellings) →
      Resolves word → ∀ fault, Command.parse raw line before = .error fault →
        ∃ front bad back, raw.trim.fields = front ++ bad :: back ∧
          (∀ field ∈ front, Resolves field) ∧ ¬ Resolves bad ∧
          fault = .rejected ⟨line, raw.trim, .unknownKey bad⟩) ∧
    (before = none → ∀ word rest, Leads raw.trim word rest →
      word ∈ Keyword.defaultDelay.spellings ∨ word ∈ Keyword.again.spellings →
        Command.parse raw line before = .error (.rejected ⟨line, raw.trim, .scriptOnly word⟩)) := by
  refine ⟨fun content => ⟨?_, ?_⟩, ?_, ?_, ?_⟩
  · rintro ⟨c, parsed, rfl⟩
    obtain ⟨written, s, read, rfl⟩ := (parse_eq_ok_iff nonneg).mp parsed
    rw [Statement.content_place]
    exact ⟨written, Statement.reads_of_read read⟩
  · rintro ⟨written, reads⟩
    obtain ⟨s, read, rfl⟩ := Statement.read_of_reads reads
    exact ⟨_, parse_of_read_ok written nonneg read, s.content_place ..⟩
  · intro c parsed
    obtain ⟨written, s, read, rfl⟩ := (parse_eq_ok_iff nonneg).mp parsed
    cases s with
    | again count => exact ⟨rfl, rfl, fun verb => by cases verb⟩
    | plain deed =>
        cases deed with
        | press keys => exact ⟨rfl, rfl, fun _ => press_keys written read⟩
        | comment | delay | setDefaultDelay | typeText =>
            exact ⟨rfl, rfl, fun verb => by cases verb⟩
  · intro word rest leads other first fault refused
    exact parse_error_of_resolves nonneg leads other first refused
  · rintro rfl word rest leads spelled
    have read : Statement.read false raw.trim = .error (.scriptOnly word) ∧ word ≠ [] := by
      cases spelled with
      | inl spelled =>
          exact ⟨Statement.read_scriptOnly leads (.inl rfl) spelled, Keyword.spellings_ne_nil spelled⟩
      | inr spelled =>
          exact ⟨Statement.read_scriptOnly leads (.inr rfl) spelled, Keyword.spellings_ne_nil spelled⟩
    exact parse_of_read_error (leads.ne_nil read.2) read.1

/-- A chord and a key behind a tab and a no-break space. -/
theorem line_grammar_exact_chord :
    (0 : Int) ≤ 7 ∧ ∃ c, Command.parse (utf8 " WINDOWS-r \t\u00a0ESC ") 7 none = .ok c ∧
      c.content = { verb := .press, keys := [utf8 "winleft", utf8 "r", utf8 "escape"] } := by
  have trimmed : Text.trim (utf8 " WINDOWS-r \t\u00a0ESC ") = utf8 "WINDOWS-r \t\u00a0ESC" := by
    decide +kernel
  have fields : Text.fields (utf8 "WINDOWS-r \t\u00a0ESC") = [utf8 "WINDOWS-r", utf8 "ESC"] := by
    decide +kernel
  have leads : Leads (utf8 "WINDOWS-r \t\u00a0ESC") (utf8 "WINDOWS-r") (utf8 "\t\u00a0ESC") :=
    leads_iff.mpr (by decide)
  have presses : Presses [utf8 "WINDOWS-r", utf8 "ESC"] [utf8 "winleft", utf8 "r", utf8 "escape"] :=
    readKeys_eq_ok_iff.mp (by decide +kernel)
  refine ⟨by decide, ((line_grammar_exact (by decide) _ none).1 _).mpr ?_⟩
  rw [trimmed]
  refine ⟨by decide, .press leads ?_ presses.resolves_first (fields ▸ presses)⟩
  exact keyword?_canonical_eq_none_iff.mp (by decide +kernel)

end Lines

end KeyScript
