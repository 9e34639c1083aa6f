import KeyScript.Text.Blank

/-!
Texts against the characters they spell. The glyphs of a text are the bytes of
the text cut into pieces, and a text without stray bytes is the UTF-8 form of
its characters. Bytes of ASCII stand for themselves only, so such texts can be
cut at them.
-/

namespace KeyScript

theorem toNat_ofNat {n : Nat} (h : n.isValidChar) : (Char.ofNat n).val.toNat = n := by
  rw [Char.ofNat, dif_pos h]
  rfl

namespace Glyph

theorem isTail_iff (b : UInt8) : isTail b ↔ 128 ≤ b.toNat ∧ b.toNat ≤ 191 := by
  simp [isTail, UInt8.le_iff_toNat_le]

theorem secondOfThree_iff (a b : UInt8) : secondOfThree a b ↔
    (224 ≤ a.toNat ∧ a.toNat ≤ 239) ∧ (128 ≤ b.toNat ∧ b.toNat ≤ 191) ∧
      (a.toNat = 224 → 160 ≤ b.toNat) ∧ (a.toNat = 237 → b.toNat ≤ 159) := by
  simp only [secondOfThree, Bool.or_eq_true, Bool.and_eq_true, beq_iff_eq, bne_iff_ne,
    decide_eq_true_eq, isTail_iff, UInt8.le_iff_toNat_le, ← UInt8.toNat_inj, ne_eq,
    UInt8.reduceToNat]
  omega

theorem secondOfFour_iff (a b : UInt8) : secondOfFour a b ↔
    (240 ≤ a.toNat ∧ a.toNat ≤ 244) ∧ (128 ≤ b.toNat ∧ b.toNat ≤ 191) ∧
      (a.toNat = 240 → 144 ≤ b.toNat) ∧ (a.toNat = 244 → b.toNat ≤ 143) := by
  simp only [secondOfFour, Bool.or_eq_true, Bool.and_eq_true, beq_iff_eq, decide_eq_true_eq,
    isTail_iff, UInt8.le_iff_toNat_le, ← UInt8.toNat_inj, UInt8.reduceToNat]
  omega

theorem ofNat_eq_iff (n : Nat) (b : UInt8) : UInt8.ofNat n = b ↔ n % 256 = b.toNat := by
  rw [← UInt8.toNat_inj, UInt8.toNat_ofNat']

section

variable {a b c d : UInt8}

theorem encode_one (ha : a.toNat < 128) :
    String.utf8EncodeChar (Char.ofNat a.toNat) = [a] := by
  have valid : a.toNat.isValidChar := .inl (by omega)
  have small : a.toNat ≤ 127 := by omega
  simp only [String.utf8EncodeChar, toNat_ofNat valid, small, if_true, UInt8.ofNat_toNat]

theorem encode_two (ha : 194 ≤ a.toNat ∧ a.toNat ≤ 223) (hb : isTail b) :
    String.utf8EncodeChar (Char.ofNat (a.toNat % 32 * 64 + tailBits b)) = [a, b] := by
  rw [isTail_iff] at hb
  generalize hn : a.toNat % 32 * 64 + tailBits b = n
  simp only [tailBits] at hn
  have valid : n.isValidChar := .inl (by omega)
  have large : ¬ n ≤ 127 := by omega
  have small : n ≤ 2047 := by omega
  simp only [String.utf8EncodeChar, toNat_ofNat valid, large, small, if_true, if_false,
    List.cons.injEq, ofNat_eq_iff, and_true]
  omega

theorem encode_three (hab : secondOfThree a b) (hc : isTail c) :
    String.utf8EncodeChar (Char.ofNat (a.toNat % 16 * 4096 + tailBits b * 64 + tailBits c)) =
      [a, b, c] := by
  rw [secondOfThree_iff] at hab
  rw [isTail_iff] at hc
  generalize hn : a.toNat % 16 * 4096 + tailBits b * 64 + tailBits c = n
  simp only [tailBits] at hn
  have valid : n.isValidChar := by
    simp only [Nat.isValidChar]
    omega
  have large : ¬ n ≤ 127 ∧ ¬ n ≤ 2047 := by omega
  have small : n ≤ 65535 := by omega
  simp only [String.utf8EncodeChar, toNat_ofNat valid, large, small, if_true, if_false,
    List.cons.injEq, ofNat_eq_iff, and_true]
  omega

theorem encode_four (hab : secondOfFour a b) (hc : isTail c) (hd : isTail d) :
    String.utf8EncodeChar (Char.ofNat
        (a.toNat % 8 * 262144 + tailBits b * 4096 + tailBits c * 64 + tailBits d)) =
      [a, b, c, d] := by
  rw [secondOfFour_iff] at hab
  rw [isTail_iff] at hc hd
  generalize hn : a.toNat % 8 * 262144 + tailBits b * 4096 + tailBits c * 64 + tailBits d = n
  simp only [tailBits] at hn
  have valid : n.isValidChar := by
    simp only [Nat.isValidChar]
    omega
  have large : ¬ n ≤ 127 ∧ ¬ n ≤ 2047 ∧ ¬ n ≤ 65535 := by omega
  simp only [String.utf8EncodeChar, toNat_ofNat valid, large, if_false, List.cons.injEq,
    ofNat_eq_iff, and_true]
  omega

theorem not_ascii (ha : 128 ≤ a.toNat) : ¬ a < 0x80 := by
  rw [UInt8.lt_iff_toNat_lt]
  exact Nat.not_lt.mpr ha

theorem startsTwo_iff : (0xC2 ≤ a && a ≤ 0xDF && isTail b) = true ↔
    (194 ≤ a.toNat ∧ a.toNat ≤ 223) ∧ isTail b := by
  simp only [Bool.and_eq_true, decide_eq_true_eq, UInt8.le_iff_toNat_le, UInt8.reduceToNat]

theorem read_one (ha : a.toNat < 128) (rest : Text) :
    read a rest = (.char (Char.ofNat a.toNat), 0) := by
  have ascii : a < 0x80 := UInt8.lt_iff_toNat_lt.mpr ha
  simp only [read, ascii, if_true]

theorem read_two (ha : 194 ≤ a.toNat ∧ a.toNat ≤ 223) (hb : isTail b) (rest : Text) :
    read a (b :: rest) = (.char (Char.ofNat (a.toNat % 32 * 64 + tailBits b)), 1) := by
  have ascii := not_ascii (show 128 ≤ a.toNat by omega)
  have two := startsTwo_iff.mpr ⟨ha, hb⟩
  rcases rest with _ | ⟨c, _ | ⟨d, rest⟩⟩
  all_goals simp only [read, ascii, two, if_true, if_false]

theorem read_three (hab : secondOfThree a b) (hc : isTail c) (rest : Text) :
    read a (b :: c :: rest) =
      (.char (Char.ofNat (a.toNat % 16 * 4096 + tailBits b * 64 + tailBits c)), 2) := by
  obtain ⟨ha, -⟩ := (secondOfThree_iff a b).mp hab
  have ascii := not_ascii (show 128 ≤ a.toNat by omega)
  have two : ¬ (0xC2 ≤ a && a ≤ 0xDF && isTail b) = true := fun h => by
    have := (startsTwo_iff.mp h).1
    omega
  rcases rest with _ | ⟨d, rest⟩
  all_goals simp only [read, ascii, two, hab, hc, Bool.and_true, Bool.false_eq_true, if_true,
    if_false]

theorem read_four (hab : secondOfFour a b) (hc : isTail c) (hd : isTail d) (rest : Text) :
    read a (b :: c :: d :: rest) = (.char (Char.ofNat
      (a.toNat % 8 * 262144 + tailBits b * 4096 + tailBits c * 64 + tailBits d)), 3) := by
  obtain ⟨ha, -⟩ := (secondOfFour_iff a b).mp hab
  have ascii := not_ascii (show 128 ≤ a.toNat by omega)
  have two : ¬ (0xC2 ≤ a && a ≤ 0xDF && isTail b) = true := fun h => by
    have := (startsTwo_iff.mp h).1
    omega
  have three : ¬ secondOfThree a b = true := fun h => by
    have := ((secondOfThree_iff a b).mp h).1
    omega
  simp only [read, ascii, two, three, hab, hc, hd, Bool.and_true, Bool.false_eq_true, if_true,
    if_false]

end

/-- A glyph has the bytes it was read from. -/
theorem bytes_read (a : UInt8) (rest : Text) :
    (read a rest).1.bytes ++ rest.drop (read a rest).2 = a :: rest := by
  by_cases ascii : a.toNat < 128
  · simp [read_one ascii, bytes, encode_one ascii]
  have high := not_ascii (Nat.not_lt.mp ascii)
  cases rest with
  | nil => simp [read, high, bytes]
  | cons b rest =>
      by_cases two : (0xC2 ≤ a && a ≤ 0xDF && isTail b) = true
      · obtain ⟨ha, hb⟩ := startsTwo_iff.mp two
        simp [read_two ha hb, bytes, encode_two ha hb]
      cases rest with
      | nil => simp only [read, high, two, if_false]; rfl
      | cons c rest =>
          by_cases three : (secondOfThree a b && isTail c) = true
          · obtain ⟨hab, hc⟩ := Bool.and_eq_true_iff.mp three
            simp [read_three hab hc, bytes, encode_three hab hc]
          cases rest with
          | nil => simp only [read, high, two, three, if_false]; rfl
          | cons d rest =>
              by_cases four : (secondOfFour a b && isTail c && isTail d) = true
              · obtain ⟨habc, hd⟩ := Bool.and_eq_true_iff.mp four
                obtain ⟨hab, hc⟩ := Bool.and_eq_true_iff.mp habc
                simp [read_four hab hc hd, bytes, encode_four hab hc hd]
              · simp only [read, high, two, three, four, if_false]; rfl

theorem isTail_second {a b : UInt8} (h : secondOfThree a b ∨ secondOfFour a b) : isTail b := by
  rw [isTail_iff]
  cases h with
  | inl three => exact ((secondOfThree_iff a b).mp three).2.1
  | inr four => exact ((secondOfFour_iff a b).mp four).2.1

/-- A glyph ends before a byte that does not continue one. -/
theorem read_append {t : Text} (h : ∀ b, t.head? = some b → isTail b = false) (a : UInt8)
    (rest : Text) : read a (rest ++ t) = read a rest := by
  cases t with
  | nil => rw [List.append_nil]
  | cons e t =>
      have starts : ¬ isTail e := by simp [h e rfl]
      have three : ¬ secondOfThree a e := fun second => starts (isTail_second (.inl second))
      have four : ¬ secondOfFour a e := fun second => starts (isTail_second (.inr second))
      match rest with
      | [] =>
          rcases t with _ | ⟨f, _ | ⟨g, t⟩⟩
          all_goals simp [read, starts, three, four]
      | [b] => cases t <;> simp [read, starts]
      | [b, c] => simp [read, starts]
      | b :: c :: d :: rest => simp only [read, List.cons_append]

/-- Every character is spelled in one of four ways. -/
theorem char_cases (char : Char) :
    (∃ a : UInt8, a.toNat < 128 ∧ char = Char.ofNat a.toNat) ∨
    (∃ a b : UInt8, (194 ≤ a.toNat ∧ a.toNat ≤ 223) ∧ isTail b ∧
      char = Char.ofNat (a.toNat % 32 * 64 + tailBits b)) ∨
    (∃ a b c, secondOfThree a b ∧ isTail c ∧
      char = Char.ofNat (a.toNat % 16 * 4096 + tailBits b * 64 + tailBits c)) ∨
    (∃ a b c d, secondOfFour a b ∧ isTail c ∧ isTail d ∧ char = Char.ofNat
      (a.toNat % 8 * 262144 + tailBits b * 4096 + tailBits c * 64 + tailBits d)) := by
  generalize hn : char.val.toNat = n
  have valid : n.isValidChar := hn ▸ char.valid
  have same : char = Char.ofNat n := hn ▸ (Char.ofNat_toNat char).symm
  have byte (k : Nat) (h : k < 256) : (UInt8.ofNat k).toNat = k := UInt8.toNat_ofNat_of_lt' h
  simp only [Nat.isValidChar] at valid
  simp only [isTail_iff, secondOfThree_iff, secondOfFour_iff, tailBits]
  by_cases one : n < 128
  · refine .inl ⟨.ofNat n, ?_, ?_⟩
    · rwa [byte n (by omega)]
    · rwa [byte n (by omega)]
  by_cases two : n < 2048
  · refine .inr (.inl ⟨.ofNat (n / 64 + 192), .ofNat (n % 64 + 128), ?_⟩)
    rw [byte _ (by omega), byte _ (by omega)]
    refine ⟨by omega, by omega, same.trans (congrArg Char.ofNat ?_)⟩
    omega
  by_cases three : n < 65536
  · refine .inr (.inr (.inl
      ⟨.ofNat (n / 4096 + 224), .ofNat (n / 64 % 64 + 128), .ofNat (n % 64 + 128), ?_⟩))
    rw [byte _ (by omega), byte _ (by omega), byte _ (by omega)]
    refine ⟨by omega, by omega, same.trans (congrArg Char.ofNat ?_)⟩
    omega
  · refine .inr (.inr (.inr ⟨.ofNat (n / 262144 + 240), .ofNat (n / 4096 % 64 + 128),
      .ofNat (n / 64 % 64 + 128), .ofNat (n % 64 + 128), ?_⟩))
    rw [byte _ (by omega), byte _ (by omega), byte _ (by omega), byte _ (by omega)]
    refine ⟨by omega, by omega, by omega, same.trans (congrArg Char.ofNat ?_)⟩
    omega

/-- A character is read from its bytes, whatever stands behind them. -/
theorem read_encode (char : Char) (rest : Text) :
    ∃ a tail, String.utf8EncodeChar char = a :: tail ∧
      read a (tail ++ rest) = (.char char, tail.length) := by
  rcases char_cases char with ⟨a, ha, rfl⟩ | ⟨a, b, ha, hb, rfl⟩ | ⟨a, b, c, hab, hc, rfl⟩ |
    ⟨a, b, c, d, hab, hc, hd, rfl⟩
  · exact ⟨a, [], encode_one ha, read_one ha _⟩
  · exact ⟨a, [b], encode_two ha hb, read_two ha hb _⟩
  · exact ⟨a, [b, c], encode_three hab hc, read_three hab hc _⟩
  · exact ⟨a, [b, c, d], encode_four hab hc hd, read_four hab hc hd _⟩

/-- A byte of ASCII is the whole of a character or no part of it. -/
theorem encode_of_ascii {char : Char} {b : UInt8} (ascii : b.toNat < 128)
    (h : b ∈ String.utf8EncodeChar char) : String.utf8EncodeChar char = [b] := by
  rcases char_cases char with ⟨a, ha, rfl⟩ | ⟨a, c, ha, hc, rfl⟩ | ⟨a, c, d, hac, hd, rfl⟩ |
    ⟨a, c, d, e, hac, hd, he, rfl⟩
  · rw [encode_one ha] at h ⊢
    rw [List.mem_singleton.mp h]
  · rw [encode_two ha hc] at h
    rw [isTail_iff] at hc
    simp only [List.mem_cons, List.not_mem_nil, or_false] at h
    rcases h with rfl | rfl <;> omega
  · rw [encode_three hac hd] at h
    rw [secondOfThree_iff] at hac
    rw [isTail_iff] at hd
    simp only [List.mem_cons, List.not_mem_nil, or_false] at h
    rcases h with rfl | rfl | rfl <;> omega
  · rw [encode_four hac hd he] at h
    rw [secondOfFour_iff] at hac
    rw [isTail_iff] at hd he
    simp only [List.mem_cons, List.not_mem_nil, or_false] at h
    rcases h with rfl | rfl | rfl | rfl <;> omega

end Glyph

namespace Text

/-- Reading in the middle of a glyph goes on where its bytes end. -/
theorem readGlyphs_toList (skip : Nat) (found : Array Glyph) (t : Text) :
    (readGlyphs skip found t).toList = found.toList ++ glyphs (t.drop skip) := by
  induction t generalizing skip found with
  | nil => simp [readGlyphs, glyphs]
  | cons a rest ih =>
      cases skip with
      | succ skip => exact ih skip found
      | zero =>
          rw [List.drop_zero, glyphs, readGlyphs, readGlyphs, ih, ih]
          simp

theorem glyphs_cons (a : UInt8) (rest : Text) :
    glyphs (a :: rest) = (Glyph.read a rest).1 :: glyphs (rest.drop (Glyph.read a rest).2) := by
  rw [glyphs, readGlyphs, readGlyphs_toList]
  rfl

/-- The glyphs of a text are its bytes. -/
theorem ofGlyphs_glyphs (t : Text) : ofGlyphs t.glyphs = t := by
  induction h : t.length using Nat.strongRecOn generalizing t with
  | _ n ih =>
      cases t with
      | nil => rfl
      | cons a rest =>
          have shorter : (rest.drop (Glyph.read a rest).2).length < n := by
            simp only [← h, List.length_drop, List.length_cons]
            omega
          rw [glyphs_cons, ofGlyphs, List.flatMap_cons]
          have rest_eq := ih _ shorter _ rfl
          rw [ofGlyphs] at rest_eq
          rw [rest_eq]
          exact Glyph.bytes_read a rest

theorem glyphs_append {t : Text} (h : ∀ b, t.head? = some b → Glyph.isTail b = false) (s : Text) :
    glyphs (s ++ t) = glyphs s ++ glyphs t := by
  induction hl : s.length using Nat.strongRecOn generalizing s with
  | _ n ih =>
      cases s with
      | nil => rfl
      | cons a rest =>
          have shorter : (rest.drop (Glyph.read a rest).2).length < n := by
            simp only [← hl, List.length_drop, List.length_cons]
            omega
          have behind : (rest ++ t).drop (Glyph.read a rest).2 =
              rest.drop (Glyph.read a rest).2 ++ t := by
            have whole := Glyph.bytes_read a (rest ++ t)
            rw [Glyph.read_append h, ← List.cons_append, ← Glyph.bytes_read a rest,
              List.append_assoc] at whole
            exact List.append_cancel_left whole
          rw [List.cons_append, glyphs_cons, glyphs_cons, Glyph.read_append h, behind,
            ih _ shorter _ rfl, List.cons_append]

theorem glyphs_encode (c : Char) (rest : Text) :
    glyphs (String.utf8EncodeChar c ++ rest) = .char c :: glyphs rest := by
  obtain ⟨a, tail, encode, read⟩ := Glyph.read_encode c rest
  rw [encode, List.cons_append, glyphs_cons, read, List.drop_left]

theorem glyphs_ofChars (cs : List Char) : glyphs (ofChars cs) = cs.map .char := by
  induction cs with
  | nil => rfl
  | cons c cs ih =>
      rw [ofChars, List.flatMap_cons, glyphs_encode]
      exact congrArg (Glyph.char c :: ·) ih

/-- A text that is the UTF-8 form of some characters. -/
def IsUtf8 (t : Text) : Prop :=
  ∃ cs : List Char, t = ofChars cs

theorem isUtf8_ofGlyphs {gs : List Glyph} (h : ∀ b, .stray b ∉ gs) : IsUtf8 (ofGlyphs gs) := by
  induction gs with
  | nil => exact ⟨[], rfl⟩
  | cons g gs ih =>
      obtain ⟨cs, hcs⟩ := ih fun b hb => h b (List.mem_cons_of_mem _ hb)
      cases g with
      | char c => exact ⟨c :: cs, congrArg (String.utf8EncodeChar c ++ ·) hcs⟩
      | stray b => exact absurd List.mem_cons_self (h b)

theorem isValid_iff (t : Text) : t.isValid ↔ t.IsUtf8 := by
  constructor
  · intro valid
    rw [← ofGlyphs_glyphs t]
    apply isUtf8_ofGlyphs
    intro b hb
    simp only [isValid, List.all_eq_true] at valid
    exact absurd (valid _ hb) Bool.false_ne_true
  · rintro ⟨cs, rfl⟩
    simp [isValid, glyphs_ofChars]

instance (t : Text) : Decidable t.IsUtf8 :=
  decidable_of_iff _ (isValid_iff t)

theorem isUtf8_nil : IsUtf8 [] :=
  ⟨[], rfl⟩

theorem IsUtf8.append {s t : Text} (hs : s.IsUtf8) (ht : t.IsUtf8) : IsUtf8 (s ++ t) := by
  obtain ⟨cs, rfl⟩ := hs
  obtain ⟨ds, rfl⟩ := ht
  exact ⟨cs ++ ds, by simp [ofChars]⟩

theorem isUtf8_flatten {ts : List Text} (h : ∀ t ∈ ts, IsUtf8 t) : IsUtf8 ts.flatten := by
  induction ts with
  | nil => exact isUtf8_nil
  | cons t ts ih =>
      obtain ⟨first, others⟩ := List.forall_mem_cons.mp h
      exact first.append (ih others)

theorem isUtf8_ascii {b : UInt8} (ascii : b.toNat < 128) : IsUtf8 [b] :=
  ⟨[Char.ofNat b.toNat], by simp [ofChars, Glyph.encode_one ascii]⟩

theorem isUtf8_encode (c : Char) : IsUtf8 (String.utf8EncodeChar c) :=
  ⟨[c], by simp [ofChars]⟩

/-- A text can be cut at a byte of ASCII. -/
theorem isUtf8_cut {s t : Text} {b : UInt8} (ascii : b.toNat < 128) :
    IsUtf8 (s ++ b :: t) ↔ IsUtf8 s ∧ IsUtf8 t := by
  constructor
  · rintro ⟨cs, hcs⟩
    induction cs generalizing s with
    | nil => simp [ofChars] at hcs
    | cons c cs ih =>
        rw [ofChars, List.flatMap_cons] at hcs
        rcases List.append_eq_append_iff.mp hcs with ⟨later, hc, ht⟩ | ⟨later, hs, ht⟩
        · rcases List.cons_eq_append_iff.mp ht with ⟨none, ht⟩ | ⟨more, hlater, ht⟩
          -- the byte starts the second character
          · rw [none, List.append_nil] at hc
            have behind : [] ++ b :: t = ofChars cs := ht.symm
            exact ⟨hc ▸ isUtf8_encode c, (ih behind).2⟩
          -- the byte is in the first character, which has no room for another one
          · rw [hlater] at hc
            have alone : String.utf8EncodeChar c = [b] :=
              Glyph.encode_of_ascii ascii (by simp [hc])
            rw [alone] at hc
            rcases List.singleton_eq_append_iff.mp hc with ⟨rfl, hb⟩ | ⟨-, hb⟩
            · rw [List.cons.injEq] at hb
              rw [hb.2, List.nil_append] at ht
              exact ⟨⟨[], rfl⟩, cs, ht⟩
            · cases hb
        -- the byte lies behind the first character
        · obtain ⟨hlater, ht⟩ := ih ht.symm
          rw [hs]
          exact ⟨(isUtf8_encode c).append hlater, ht⟩
  · rintro ⟨hs, ht⟩
    exact hs.append ((isUtf8_ascii ascii).append ht)

/-- What is trimmed off a text at its ends is white space. -/
theorem exists_eq_trim (t : Text) : ∃ front middle back : List Glyph,
    (∀ g ∈ front ++ back, g.isBlank) ∧ t.glyphs = front ++ middle ++ back ∧
      t.trim = ofGlyphs middle := by
  let rest := t.glyphs.dropWhile Glyph.isBlank
  have split : rest = (rest.reverse.dropWhile Glyph.isBlank).reverse ++
      (rest.reverse.takeWhile Glyph.isBlank).reverse := by
    rw [← List.reverse_append, List.takeWhile_append_dropWhile, List.reverse_reverse]
  refine ⟨t.glyphs.takeWhile Glyph.isBlank, _, (rest.reverse.takeWhile Glyph.isBlank).reverse,
    ?_, ?_, rfl⟩
  · intro g hg
    rcases List.mem_append.mp hg with hg | hg
    · exact List.all_eq_true.mp List.all_takeWhile g hg
    · exact List.all_eq_true.mp List.all_takeWhile g (List.mem_reverse.mp hg)
  · rw [List.append_assoc]
    exact List.takeWhile_append_dropWhile.symm.trans (congrArg _ split)

theorem trim_infix (t : Text) : t.trim <:+: t := by
  obtain ⟨front, middle, back, -, glyphs, trim⟩ := exists_eq_trim t
  refine ⟨ofGlyphs front, ofGlyphs back, ?_⟩
  rw [trim, ← ofGlyphs_glyphs t, glyphs]
  simp [ofGlyphs]

theorem length_trim_le (t : Text) : t.trim.length ≤ t.length :=
  t.trim_infix.length_le

/-- Trimming takes off characters only. -/
theorem isUtf8_trim (t : Text) : IsUtf8 t.trim ↔ IsUtf8 t := by
  obtain ⟨front, middle, back, blank, glyphs, trim⟩ := exists_eq_trim t
  have noStray (b : UInt8) : .stray b ∉ front ++ back := fun hb => Bool.false_ne_true (blank _ hb)
  rw [trim]
  constructor
  · intro h
    have hf : IsUtf8 (ofGlyphs front) :=
      isUtf8_ofGlyphs fun b hb => noStray b (List.mem_append_left _ hb)
    have hb : IsUtf8 (ofGlyphs back) :=
      isUtf8_ofGlyphs fun b hb => noStray b (List.mem_append_right _ hb)
    have whole : ofGlyphs front ++ ofGlyphs middle ++ ofGlyphs back = t := by
      rw [← ofGlyphs_glyphs t, glyphs]
      simp [ofGlyphs]
    exact whole ▸ (hf.append h).append hb
  · rintro ⟨cs, rfl⟩
    apply isUtf8_ofGlyphs
    intro b hb
    rw [glyphs_ofChars] at glyphs
    have inside : .stray b ∈ cs.map Glyph.char := by simp [glyphs, hb]
    simp at inside

end Text

end KeyScript
