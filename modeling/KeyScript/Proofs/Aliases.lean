import KeyScript.Proofs.Difference
import KeyScript.Proofs.Faults
import KeyScript.Proofs.Lines
import KeyScript.Proofs.WordMap

/-!
Aliases make no difference. They are looked up in three places, for the verb of a
line, to tell whether its first word is known, and for each part of a chord. A
text in which they are replaced by the words that they stand for is loaded
exactly if the text itself is, and to commands that differ in their lines only.
-/

namespace KeyScript

theorem canonical_canonical (word : Text) : canonical (canonical word) = canonical word := by
  have targets : ∀ pair ∈ aliases, canonical pair.2 = pair.2 := by decide +kernel
  cases canonical_cases word with
  | inl same => rw [same, same]
  | inr member => exact targets _ member

theorem canonical_eq_nil (word : Text) : canonical word = [] ↔ word = [] := by
  have filled : ∀ pair ∈ aliases, pair.1 ≠ [] ∧ pair.2 ≠ [] := by decide +kernel
  cases canonical_cases word with
  | inl same => rw [same]
  | inr member => exact iff_of_false (filled _ member).2 (filled _ member).1

/-- What separates words, lines and the parts of a chord is in no word that an alias stands for. -/
theorem mem_of_mem_canonical {b : UInt8} (h : b ∈ [32, newline, hyphen]) {word : Text}
    (found : b ∈ canonical word) : b ∈ word := by
  have free : ∀ pair ∈ aliases, ∀ b ∈ [32, newline, hyphen], b ∉ pair.2 := by decide +kernel
  cases canonical_cases word with
  | inl same => rwa [same] at found
  | inr member => exact absurd found (free _ member b h)

theorem keyOfPart_canonical (part : Text) : keyOfPart (canonical part) = keyOfPart part := by
  simp only [keyOfPart, canonical_canonical]

/-- The word with every part of its chord replaced by what it stands for. -/
def respellWord (word : Text) : Text :=
  Text.join [hyphen] ((word.split hyphen).map canonical)

theorem respellWord_of_notMem {word : Text} (free : hyphen ∉ word) :
    respellWord word = canonical word := by
  rw [respellWord, Text.split_of_notMem free, List.map_singleton, Text.join,
    List.intercalate_singleton]

theorem respellWord_cut {s : Text} (free : hyphen ∉ s) (t : Text) :
    respellWord (s ++ hyphen :: t) = canonical s ++ hyphen :: respellWord t := by
  have filled : (t.split hyphen).map canonical ≠ [] := by
    rw [Ne, List.map_eq_nil_iff]
    exact Text.splitAt_ne_nil _ [] t
  rw [respellWord, Text.split_append_cons free, List.map_cons, Text.join,
    List.intercalate_cons_of_ne_nil filled, List.append_assoc, List.singleton_append]
  rfl

theorem solid_respellWord {word : Text} (h : word.Solid) : (respellWord word).Solid := by
  induction word using Text.split_induction hyphen with
  | part word free =>
      rw [respellWord_of_notMem free]
      exact (solid_canonical word).mpr h
  | cut s t free ih =>
      obtain ⟨first, later⟩ := (Text.solid_cut (by decide) (by decide) s t).mp h
      rw [respellWord_cut free]
      exact (Text.solid_cut (by decide) (by decide) _ _).mpr
        ⟨(solid_canonical s).mpr first, ih later⟩

theorem respellWord_eq_nil (word : Text) : respellWord word = [] ↔ word = [] := by
  induction word using Text.split_induction hyphen with
  | part word free => rw [respellWord_of_notMem free, canonical_eq_nil]
  | cut s t free ih =>
      rw [respellWord_cut free]
      simp

theorem mem_of_mem_respellWord {b : UInt8} (h : b ∈ [32, newline]) {word : Text}
    (found : b ∈ respellWord word) : b ∈ word := by
  have special : b ∈ [32, newline, hyphen] := List.mem_append_left [hyphen] h
  induction word using Text.split_induction hyphen with
  | part word free =>
      rw [respellWord_of_notMem free] at found
      exact mem_of_mem_canonical special found
  | cut s t free ih =>
      rw [respellWord_cut free] at found
      simp only [List.mem_append, List.mem_cons] at found ⊢
      exact found.imp (mem_of_mem_canonical special) (fun later => later.imp_right ih)

theorem hyphen_mem_respellWord {word : Text} (found : hyphen ∈ word) :
    hyphen ∈ respellWord word := by
  obtain ⟨s, t, rfl, free⟩ := List.eq_append_cons_of_mem found
  rw [respellWord_cut free]
  simp

theorem mapWords_respellWord_of_notMem {t : Text} (free : hyphen ∉ t) :
    t.mapWords respellWord = t.mapWords canonical := by
  induction t using Text.word_induction with
  | word t solid =>
      rw [Text.mapWords_of_solid _ solid, Text.mapWords_of_solid _ solid,
        respellWord_of_notMem free]
  | cut s c t solid blank ih =>
      simp only [List.mem_append, not_or] at free
      rw [Text.mapWords_cut _ blank, Text.mapWords_cut _ blank, ih free.2,
        Text.mapWords_of_solid _ solid, Text.mapWords_of_solid _ solid,
        respellWord_of_notMem free.1.1]

/-- Words are respelled at a hyphen on both sides of it. -/
theorem mapWords_respellWord_cut {s : Text} (free : hyphen ∉ s) (t : Text) :
    Text.mapWords respellWord (s ++ hyphen :: t) =
      s.mapWords canonical ++ hyphen :: t.mapWords respellWord := by
  have joined (s t : Text) : Text.Solid (s ++ hyphen :: t) ↔ s.Solid ∧ t.Solid :=
    Text.solid_cut (by decide) (by decide) s t
  induction s using Text.word_induction with
  | word s solid =>
      -- the word goes on behind the hyphen, up to the first blank of `t`
      rw [Text.mapWords_of_solid _ solid]
      by_cases one : t.Solid
      · rw [Text.mapWords_of_solid _ one, Text.mapWords_of_solid _ ((joined s t).mpr ⟨solid, one⟩),
          respellWord_cut free]
      · obtain ⟨word, c, rest, hw, blank, rfl⟩ := Text.exists_cut_of_not_solid one
        have whole : s ++ hyphen :: (word ++ String.utf8EncodeChar c ++ rest) =
            (s ++ hyphen :: word) ++ String.utf8EncodeChar c ++ rest := by simp
        rw [whole, Text.mapWords_cut _ blank, Text.mapWords_cut _ blank,
          Text.mapWords_of_solid _ ((joined s word).mpr ⟨solid, hw⟩), respellWord_cut free,
          Text.mapWords_of_solid _ hw]
        simp
  | cut word c s solid blank ih =>
      simp only [List.mem_append, not_or] at free
      have whole : word ++ String.utf8EncodeChar c ++ s ++ hyphen :: t =
          word ++ String.utf8EncodeChar c ++ (s ++ hyphen :: t) := by simp
      rw [whole, Text.mapWords_cut _ blank, Text.mapWords_cut _ blank, ih free.2,
        Text.mapWords_of_solid _ solid, Text.mapWords_of_solid _ solid,
        respellWord_of_notMem free.1.1]
      simp

theorem split_mapWords (t : Text) :
    (t.mapWords respellWord).split hyphen = (t.split hyphen).map (Text.mapWords canonical) := by
  have kept {s : Text} (free : hyphen ∉ s) : hyphen ∉ s.mapWords canonical := fun found =>
    free (Text.mem_of_mem_mapWords _ (fun _ => mem_of_mem_canonical (by decide)) found)
  induction t using Text.split_induction hyphen with
  | part t free =>
      rw [mapWords_respellWord_of_notMem free, Text.split_of_notMem (kept free),
        Text.split_of_notMem free]
      rfl
  | cut s t free ih =>
      rw [mapWords_respellWord_cut free, Text.split_append_cons (kept free),
        Text.split_append_cons free, ih]
      rfl

/-- A part with blanks in it is no key, respelled or not, unless it is a single blank. -/
theorem keyOfPart_mapWords (part : Text) :
    keyOfPart (part.mapWords canonical) = keyOfPart part := by
  by_cases solid : part.Solid
  · rw [Text.mapWords_of_solid _ solid, keyOfPart_canonical]
  · obtain ⟨s, c, t, -, blank, rfl⟩ := Text.exists_cut_of_not_solid solid
    rw [Text.mapWords_cut _ blank]
    by_cases alone : s = [] ∧ t = []
    · rw [alone.1, alone.2]
      rfl
    · have filled : s ≠ [] ∨ t ≠ [] := Decidable.not_and_iff_or_not.mp alone
      have filled' : s.mapWords canonical ≠ [] ∨ t.mapWords canonical ≠ [] := by
        rwa [Ne, Ne, Text.mapWords_eq_nil canonical_eq_nil, Text.mapWords_eq_nil canonical_eq_nil]
      rw [keyOfPart_cut blank filled, keyOfPart_cut blank filled']

theorem keysOf_mapWords (t : Text) : keysOf (t.mapWords respellWord) = keysOf t := by
  rw [keysOf, keysOf, keysOfParts, keysOfParts, split_mapWords, List.map_map]
  congr 2
  funext part
  exact keyOfPart_mapWords part

/-- Respelling makes no verb of a word that is none. -/
theorem isVerbWord_mapWords {t : Text} (h : isVerbWord (canonical t) = false) :
    isVerbWord (canonical (t.mapWords respellWord)) = false := by
  have verbs : ∀ word ∈ verbWords, word.Solid ∧ hyphen ∉ word := by decide +kernel
  have others : ∀ pair ∈ aliases, pair.1.Solid ∧ hyphen ∉ pair.1 := by decide +kernel
  rw [← Bool.not_eq_true] at h ⊢
  intro verb
  have plain : (t.mapWords respellWord).Solid ∧ hyphen ∉ t.mapWords respellWord := by
    cases canonical_cases (t.mapWords respellWord) with
    | inl same => exact verbs _ (List.contains_iff_mem.mp (same ▸ verb))
    | inr member => exact others _ member
  apply h
  by_cases solid : t.Solid
  · rw [Text.mapWords_of_solid _ solid] at plain verb
    have free : hyphen ∉ t := fun found => plain.2 (hyphen_mem_respellWord found)
    rwa [respellWord_of_notMem free, canonical_canonical] at verb
  · obtain ⟨s, c, u, -, blank, rfl⟩ := Text.exists_cut_of_not_solid solid
    rw [Text.mapWords_cut _ blank] at plain
    exact absurd plain.1 (Text.not_solid_cut blank _ _)

/-- The statement with its verb, or else every word, replaced by what it stands for. -/
def respellStatement (text : Text) : Text :=
  let word := (text.cut 32).1
  if isVerbWord (canonical word) then canonical word ++ text.drop word.length
  else text.mapWords respellWord

theorem toOption_readKeys_cons (word : Text) (rest : List Text) :
    (readKeys (word :: rest)).toOption =
      (keysOf word).bind fun keys => (readKeys rest).toOption.map fun more => keys ++ more := by
  rw [readKeys]
  cases keysOf word with
  | none => rfl
  | some keys => cases readKeys rest <;> rfl

theorem toOption_readKeys_map {f : Text → Text} {words : List Text}
    (same : ∀ word ∈ words, keysOf (f word) = keysOf word) :
    (readKeys (words.map f)).toOption = (readKeys words).toOption := by
  induction words with
  | nil => rfl
  | cons word rest ih =>
      obtain ⟨first, others⟩ := List.forall_mem_cons.mp same
      rw [List.map_cons, toOption_readKeys_cons, toOption_readKeys_cons, first, ih others]

theorem toOption_readKeys_mapWords (t : Text) :
    (readKeys (t.mapWords respellWord).fields).toOption = (readKeys t.fields).toOption := by
  rw [Text.fields_mapWords (fun _ => solid_respellWord) respellWord_eq_nil]
  apply toOption_readKeys_map
  intro field member
  rw [← Text.mapWords_of_solid respellWord (t.fields_spec field member).1, keysOf_mapWords]

theorem keyword?_eq_none {word : Text} (h : isVerbWord word = false) : keyword? word = none := by
  simp only [isVerbWord, verbWords, List.map_cons, List.map_nil, List.contains_cons,
    List.contains_nil, Bool.or_eq_false_iff, beq_eq_false_iff_ne] at h
  simp [keyword?, h]

theorem keyword?_ne_none {word : Text} (h : isVerbWord word = true) : keyword? word ≠ none := by
  have verbs : ∀ word ∈ verbWords, keyword? word ≠ none := by decide +kernel
  exact verbs word (List.contains_iff_mem.mp h)

/-- What a verb makes of the rest of its line does not depend on how it is spelled. -/
theorem toOption_read_of_verb {t t' : Text} (inScript : Bool)
    (verb : isVerbWord (canonical (t.cut 32).1) = true)
    (same : canonical (t'.cut 32).1 = canonical (t.cut 32).1)
    (after : (t'.cut 32).2 = (t.cut 32).2) :
    (Statement.read inScript t').toOption = (Statement.read inScript t).toOption := by
  simp only [Statement.read, isRecognized, same, after, verb, Bool.true_or, Bool.not_true]
  cases kind : keyword? (canonical (t.cut 32).1) with
  | none => exact absurd kind (keyword?_ne_none verb)
  | some meant =>
      cases inScript <;> cases meant <;> cases readCount ((t.cut 32).2.getD []) <;> rfl

theorem toOption_read_of_keys {t : Text} (inScript : Bool)
    (keys : isVerbWord (canonical (t.cut 32).1) = false) :
    (Statement.read inScript t).toOption =
      (keysOf (t.cut 32).1).bind fun _ =>
        (readKeys t.fields).toOption.map fun keys => .plain (.press keys) := by
  simp only [Statement.read, isRecognized, keys, keyword?_eq_none keys]
  cases keysOf (t.cut 32).1 with
  | none => rfl
  | some first => cases readKeys t.fields <;> rfl

theorem fst_cut_mapWords (t : Text) :
    ((t.mapWords respellWord).cut 32).1 = (t.cut 32).1.mapWords respellWord := by
  have kept {s : Text} (free : 32 ∉ s) : 32 ∉ s.mapWords respellWord := fun found =>
    free (Text.mem_of_mem_mapWords _ (fun _ => mem_of_mem_respellWord (by decide)) found)
  by_cases found : 32 ∈ t
  · obtain ⟨s, u, rfl, free⟩ := List.eq_append_cons_of_mem found
    rw [Text.append_space, Text.mapWords_cut _ (by decide), ← Text.append_space,
      ← Text.append_space, Text.cut_append (kept free), Text.cut_append free]
  · rw [Text.cut_of_notMem found, Text.cut_of_notMem (kept found)]

/-- A statement is read as the same, or as none, when it is respelled. -/
theorem toOption_read_respellStatement (inScript : Bool) (t : Text) :
    (Statement.read inScript (respellStatement t)).toOption =
      (Statement.read inScript t).toOption := by
  cases verb : isVerbWord (canonical (t.cut 32).1) with
  | false =>
      have keys' : isVerbWord (canonical ((t.mapWords respellWord).cut 32).1) = false := by
        rw [fst_cut_mapWords]
        exact isVerbWord_mapWords verb
      simp only [respellStatement, verb]
      rw [if_neg Bool.false_ne_true, toOption_read_of_keys inScript verb,
        toOption_read_of_keys inScript keys', fst_cut_mapWords, keysOf_mapWords,
        toOption_readKeys_mapWords]
  | true =>
      have cut : (respellStatement t).cut 32 = (canonical (t.cut 32).1, (t.cut 32).2) := by
        have kept {s : Text} (free : 32 ∉ s) : 32 ∉ canonical s := fun found =>
          free (mem_of_mem_canonical (by decide) found)
        simp only [respellStatement, verb, if_true]
        by_cases found : 32 ∈ t
        · obtain ⟨s, u, rfl, free⟩ := List.eq_append_cons_of_mem found
          rw [Text.cut_append free, List.drop_left, Text.cut_append (kept free)]
        · rw [Text.cut_of_notMem found, List.drop_length, List.append_nil,
            Text.cut_of_notMem (kept found)]
      apply toOption_read_of_verb inScript verb
      · rw [cut, canonical_canonical]
      · rw [cut]

theorem respellStatement_tidy {t : Text} (starts : t.Starts) (ends : t.Ends) :
    (respellStatement t).Starts ∧ (respellStatement t).Ends := by
  have verbs : ∀ word ∈ verbWords, word.Solid ∧ word ≠ [] := by decide +kernel
  cases verb : isVerbWord (canonical (t.cut 32).1) with
  | false =>
      simp only [respellStatement, verb]
      exact ⟨starts.mapWords (fun _ => solid_respellWord) respellWord_eq_nil,
        ends.mapWords (fun _ => solid_respellWord) respellWord_eq_nil⟩
  | true =>
      obtain ⟨solid, filled⟩ := verbs _ (List.contains_iff_mem.mp verb)
      simp only [respellStatement, verb, if_true]
      by_cases found : 32 ∈ t
      · obtain ⟨s, u, rfl, free⟩ := List.eq_append_cons_of_mem found
        rw [Text.cut_append free] at solid filled ⊢
        rw [List.drop_left, Text.append_space, Text.starts_cut (by decide),
          Text.ends_cut (by decide)]
        rw [Text.append_space, Text.ends_cut (by decide)] at ends
        exact ⟨solid.starts filled, ends⟩
      · rw [Text.cut_of_notMem found] at solid filled ⊢
        rw [List.drop_length, List.append_nil]
        exact ⟨solid.starts filled, solid.ends filled⟩

theorem mem_of_mem_respellStatement {t : Text} (found : newline ∈ respellStatement t) :
    newline ∈ t := by
  rw [respellStatement] at found
  split at found
  · cases List.mem_append.mp found with
    | inl verb =>
        have word : newline ∈ (t.cut 32).1 := mem_of_mem_canonical (by decide) verb
        exact List.takeWhile_subset _ word
    | inr behind => exact List.mem_of_mem_drop behind
  · exact Text.mem_of_mem_mapWords _ (fun _ => mem_of_mem_respellWord (by decide)) found

/-- The line with its statement respelled and the white space around it as it was. -/
def respellLine (line : Text) : Text :=
  line.mapTrimmed respellStatement

theorem trim_respellLine (line : Text) : (respellLine line).trim = respellStatement line.trim := by
  apply Text.trim_mapTrimmed
  cases line.tidy_trim with
  | inl blank =>
      rw [blank]
      exact .inl (by decide +kernel)
  | inr tidy => exact .inr (respellStatement_tidy tidy.1 tidy.2)

theorem trim_respellLine_eq_nil (line : Text) : (respellLine line).trim = [] ↔ line.trim = [] := by
  rw [trim_respellLine]
  cases line.tidy_trim with
  | inl blank =>
      rw [blank]
      exact iff_of_true (by decide +kernel) rfl
  | inr tidy =>
      have filled {t : Text} (starts : t.Starts) : t ≠ [] := by
        rintro rfl
        obtain ⟨g, none, -⟩ := starts
        cases none
      exact iff_of_false (filled (respellStatement_tidy tidy.1 tidy.2).1) (filled tidy.1)

/-- The text with every line respelled; what ends the lines stays. -/
def respell (t : Text) : Text :=
  Text.join [newline] ((t.split newline).map respellLine)

theorem split_respell (t : Text) :
    (respell t).split newline = (t.split newline).map respellLine := by
  apply Text.split_join
  · rw [Ne, List.map_eq_nil_iff]
    exact Text.splitAt_ne_nil _ [] t
  · intro line member
    obtain ⟨line, hl, rfl⟩ := List.mem_map.mp member
    intro found
    apply Text.notMem_of_mem_split hl
    exact Text.mem_of_mem_mapTrimmed (fun _ => mem_of_mem_respellStatement) found

/-- Commands that are the same but for the texts of their lines, and of those of their targets. -/
inductive Command.Matches : Command → Command → Prop
  | plain (raw raw' : Text) (line : Int) (deed : Deed) :
      Matches (.plain raw line deed) (.plain raw' line deed)
  | again (raw raw' : Text) (line : Int) (count : Nat) {target target' : Command} :
      Matches target target' →
        Matches (.again raw line count target) (.again raw' line count target')

namespace Command.Matches

theorem line {c c' : Command} (h : Matches c c') : c.line = c'.line := by
  cases h <;> rfl

theorem agrees {c c' : Command} (h : Matches c c') :
    (Step.ofCommand c).Agrees (Step.ofCommand c') := by
  cases h with
  | plain raw raw' line deed => exact ⟨rfl, rfl, rfl, rfl, rfl, rfl, rfl, rfl⟩
  | again raw raw' line count target => exact ⟨rfl, rfl, rfl, rfl, rfl, rfl, target.line, rfl⟩

/-- The nearest commands before a line, or nothing before it, match. -/
theorem nearest {recent recent' : List Command} (h : List.Forall₂ Matches recent recent')
    (line : Int) : Matches ((recent.find? fun c => c.line < line).getD nothing)
      ((recent'.find? fun c => c.line < line).getD nothing) := by
  induction h with
  | nil => exact .plain _ _ _ _
  | cons first _ ih =>
      rw [List.find?_cons, List.find?_cons, first.line]
      split
      · exact first
      · exact ih

end Command.Matches

/-- A line that is respelled gives a command that matches, or both lines give none. -/
theorem parse_respellLine {line : Text} (written : line.trim ≠ []) (n : Nat)
    {recent recent' : List Command} (h : List.Forall₂ Command.Matches recent recent') :
    (∃ c c', Command.parse line.trim n (some recent) = .ok c ∧
      Command.parse (respellLine line).trim n (some recent') = .ok c' ∧ c.Matches c') ∨
    ∃ e e', Command.parse line.trim n (some recent) = .error (.rejected e) ∧
      Command.parse (respellLine line).trim n (some recent') = .error (.rejected e') ∧
      e.line = n ∧ e'.line = n := by
  have filled : line.trim.isEmpty = false := by simpa using written
  have filled' : (respellLine line).trim.isEmpty = false := by
    simpa using fun empty => written ((trim_respellLine_eq_nil line).mp empty)
  have same := toOption_read_respellStatement true line.trim
  rw [← trim_respellLine] at same
  simp only [Command.parse, Text.trim_trim, filled, filled', Option.isSome_some, Option.getD_some,
    previous_of_nonneg _ (Int.natCast_nonneg n)]
  cases read : Statement.read true line.trim with
  | error problem =>
      rw [read] at same
      cases read' : Statement.read true (respellLine line).trim with
      | error problem' => exact .inr ⟨_, _, rfl, rfl, rfl, rfl⟩
      | ok statement =>
          rw [read'] at same
          cases same
  | ok statement =>
      rw [read] at same
      cases read' : Statement.read true (respellLine line).trim with
      | error problem' =>
          rw [read'] at same
          cases same
      | ok statement' =>
          rw [read'] at same
          cases same
          left
          cases statement with
          | plain deed => exact ⟨_, _, rfl, rfl, .plain _ _ _ _⟩
          | again count => exact ⟨_, _, rfl, rfl, .again _ _ _ _ (.nearest h n)⟩

/-- What is read of lines, as far as aliases matter: matching commands, or a line that is no
statement. -/
inductive LoadsAlike : Except LoadFault (List Command) → Except LoadFault (List Command) → Prop
  | loaded {cs cs' : List Command} : List.Forall₂ Command.Matches cs cs' →
      LoadsAlike (.ok cs) (.ok cs')
  | refused {e e' : ParseError} : e.line = e'.line →
      LoadsAlike (.error (.parse e)) (.error (.parse e'))

theorem readLines_respelled (n : Nat) {recent recent' : List Command}
    (h : List.Forall₂ Command.Matches recent recent') (lines : List Text) :
    LoadsAlike (readLines n recent lines) (readLines n recent' (lines.map respellLine)) := by
  induction lines generalizing n recent recent' with
  | nil => exact .loaded (List.rel_reverse h)
  | cons line rest ih =>
      rw [List.map_cons, readLines, readLines]
      by_cases blank : line.trim = []
      · have blank' := (trim_respellLine_eq_nil line).mpr blank
        rw [blank, blank']
        exact ih (n + 1) h
      · have written' : (respellLine line).trim ≠ [] := fun empty =>
          blank ((trim_respellLine_eq_nil line).mp empty)
        rw [if_neg (by simpa using blank), if_neg (by simpa using written')]
        obtain ⟨c, c', parsed, parsed', matched⟩ | ⟨e, e', refused, refused', place, place'⟩ :=
          parse_respellLine blank n h
        · rw [parsed, parsed']
          exact ih (n + 1) (.cons matched h)
        · rw [refused, refused']
          exact .refused (place.trans place'.symm)

theorem commands_respell {t : Text} (short : hasLineOver lineLimit t = false)
    (short' : hasLineOver lineLimit (respell t) = false) :
    LoadsAlike (Source.commands ⟨t, none⟩) (Source.commands ⟨respell t, none⟩) := by
  have lines (t : Text) : readLines 0 [] (physicalLines t) = readLines 0 [] (t.split newline) :=
    readLines_congr (fun k => by rw [Text.getD_physicalLines]) 0 []
  rw [Source.commands_of_short short, Source.commands_of_short short', lines, lines,
    split_respell]
  exact readLines_respelled 0 .nil (t.split newline)

theorem isEmpty_ofPlans_of_matches {cs cs' : List Command}
    (h : List.Forall₂ Command.Matches cs cs') (name name' : Text) :
    (Diff.ofPlans (Plan.ofCommands name cs) (Plan.ofCommands name' cs')).isEmpty := by
  rw [Diff.ofPlans, Diff.isEmpty_between, forall₂_map_eq]
  simp only [Plan.ofCommands, List.forall₂_map_left_iff, List.forall₂_map_right_iff]
  exact h.imp fun c c' matched => matched.agrees.describe (Verb.ofName?_name c.verb)

/-- Aliases are transparent: a text and the text with all aliases replaced by what they stand for,
if no line of either is too long, are both loaded, or both refused at the same line. When they are
loaded, their plans agree in all but the texts of the lines, there is no difference between them,
and they do the same whatever the guard refuses, whenever the run is called off and whatever the
default delay is at the start. -/
theorem aliases_transparent {t : Text} (short : hasLineOver lineLimit t = false)
    (short' : hasLineOver lineLimit (respell t) = false) (s s' : Script) :
    (∃ loaded loaded' : Script, s.loadFrom ⟨t, none⟩ = .ok loaded ∧
      s'.loadFrom ⟨respell t, none⟩ = .ok loaded' ∧
      (∀ name name', let p := Plan.ofCommands name loaded.commands
        let q := Plan.ofCommands name' loaded'.commands
        List.Forall₂ Step.Agrees p.steps q.steps ∧ (Diff.ofPlans p q).isEmpty) ∧
      ∀ (μ : Type) (guard : Guard μ) (noted : Bool) (disk : Disk) (r : Rehearsal μ) (d : Int),
        (({ loaded with delay := d } : Script).behaviour guard noted disk r).Alike
          (({ loaded' with delay := d } : Script).behaviour guard noted disk r)) ∨
    ∃ e e' : ParseError, s.loadFrom ⟨t, none⟩ = .error (.parse e) ∧
      s'.loadFrom ⟨respell t, none⟩ = .error (.parse e') ∧ e.line = e'.line := by
  have alike := commands_respell short short'
  generalize commands : Source.commands ⟨t, none⟩ = found at alike
  generalize commands' : Source.commands ⟨respell t, none⟩ = found' at alike
  cases alike with
  | @loaded cs cs' matched =>
      let loaded : Script := { s.endLoad with commands := cs, loaded := true }
      let loaded' : Script := { s'.endLoad with commands := cs', loaded := true }
      have accepted : s.loadFrom ⟨t, none⟩ = .ok loaded :=
        Script.loadFrom_eq_ok_iff.mpr ⟨cs, commands, rfl⟩
      have accepted' : s'.loadFrom ⟨respell t, none⟩ = .ok loaded' :=
        Script.loadFrom_eq_ok_iff.mpr ⟨cs', commands', rfl⟩
      have agrees : List.Forall₂ Step.Agrees (cs.map Step.ofCommand) (cs'.map Step.ofCommand) := by
        rw [List.forall₂_map_left_iff, List.forall₂_map_right_iff]
        exact matched.imp fun _ _ => Command.Matches.agrees
      refine .inl ⟨loaded, loaded', accepted, accepted', ?_, ?_⟩
      · exact fun name name' => ⟨agrees, isEmpty_ofPlans_of_matches matched name name'⟩
      · intro μ guard noted disk r d
        exact Plan.behaviour_alike guard agrees
          (Plan.behaviour_loaded guard noted disk r d accepted [])
          (Plan.behaviour_loaded guard noted disk r d accepted' [])
  | @refused e e' place =>
      refine .inr ⟨e, e', ?_, ?_, place⟩
      · simp only [Script.loadFrom, Script.tryLoadFrom_eq, commands]
      · simp only [Script.loadFrom, Script.tryLoadFrom_eq, commands']

/-- Aliases in chords and before a tab, next to a payload that looks like one; and a line between
aliases that is bad because a tab, and no space, is behind its verb. -/
theorem aliases_transparent_chords :
    let t := utf8 "DEFAULTDELAY 5\n CONTROL-ESC WINDOWS\tr\x0d\nSTRING WINDOWS\nREPEAT 2"
    let bad := utf8 "MENU\n\nDEFAULTDELAY\t5\nESC"
    let s : Script := { path := utf8 "a" }
    respell t = utf8 "DEFAULT_DELAY 5\n CTRL-ESCAPE GUI\tr\x0d\nSTRING WINDOWS\nREPEAT 2" ∧
      respell bad = utf8 "APP\n\nDEFAULT_DELAY\t5\nESCAPE" ∧
      (∃ loaded loaded' : Script, s.loadFrom ⟨t, none⟩ = .ok loaded ∧
        s.loadFrom ⟨respell t, none⟩ = .ok loaded' ∧
        (Diff.ofPlans (Plan.ofCommands [] loaded.commands)
          (Plan.ofCommands [] loaded'.commands)).isEmpty) ∧
      ∃ e e' : ParseError, s.loadFrom ⟨bad, none⟩ = .error (.parse e) ∧
        s.loadFrom ⟨respell bad, none⟩ = .error (.parse e') ∧ e.line = e'.line := by
  intro t bad s
  have texts : respell t =
        utf8 "DEFAULT_DELAY 5\n CTRL-ESCAPE GUI\tr\x0d\nSTRING WINDOWS\nREPEAT 2" ∧
      respell bad = utf8 "APP\n\nDEFAULT_DELAY\t5\nESCAPE" := by
    decide +kernel
  have short : hasLineOver lineLimit t = false ∧ hasLineOver lineLimit bad = false := by
    decide +kernel
  have short' : hasLineOver lineLimit (respell t) = false ∧
      hasLineOver lineLimit (respell bad) = false := by
    rw [texts.1, texts.2]
    decide +kernel
  have loads : (s.loadFrom ⟨t, none⟩).isOk = true ∧ (s.loadFrom ⟨bad, none⟩).isOk = false := by
    decide +kernel
  refine ⟨texts.1, texts.2, ?_, ?_⟩
  · cases aliases_transparent short.1 short'.1 s s with
    | inl good =>
        obtain ⟨loaded, loaded', accepted, accepted', plans, -⟩ := good
        exact ⟨loaded, loaded', accepted, accepted', (plans [] []).2⟩
    | inr refused =>
        obtain ⟨e, e', refused, -⟩ := refused
        rw [refused] at loads
        cases loads.1
  · cases aliases_transparent short.2 short'.2 s s with
    | inl good =>
        obtain ⟨loaded, loaded', accepted, -⟩ := good
        rw [accepted] at loads
        cases loads.2
    | inr refused => exact refused

end KeyScript
