import KeyScript.Keyboard.Action
import KeyScript.Proofs.Statements

/-!
What people read determines what it was made from. Numbers in digits, quoted
texts and chords are told apart by the way they are written: where one of them
ends can be seen from its own bytes.
-/

namespace KeyScript
namespace Text

theorem cut_append {sep : UInt8} {a : Text} (h : sep ∉ a) (s : Text) :
    cut sep (a ++ sep :: s) = (a, some s) := by
  have front : ∀ b ∈ a, (b != sep) = true := fun b hb => by
    simp only [bne_iff_ne]
    exact fun same => h (same ▸ hb)
  simp [cut, List.takeWhile_append_of_pos front, List.dropWhile_append_of_pos front]

theorem cut_of_notMem {sep : UInt8} {t : Text} (free : sep ∉ t) : t.cut sep = (t, none) := by
  have whole : ∀ b ∈ t, (b != sep) = true := by
    intro b hb
    rw [bne_iff_ne]
    exact fun same => free (same ▸ hb)
  have front : (t ++ []).takeWhile (· != sep) = t ++ [] := List.takeWhile_append_of_pos whole
  have back : (t ++ []).dropWhile (· != sep) = [] := List.dropWhile_append_of_pos whole
  rw [List.append_nil] at front back
  rw [cut, front, back]
  rfl

/-- Texts that are cut at the first of the same byte agree on both sides of it. -/
theorem append_cons_inj {sep : UInt8} {a b s t : Text} (ha : sep ∉ a) (hb : sep ∉ b)
    (h : a ++ sep :: s = b ++ sep :: t) : a = b ∧ s = t := by
  have cuts := congrArg (cut sep) h
  rw [cut_append ha, cut_append hb] at cuts
  exact ⟨(Prod.mk.inj cuts).1, Option.some.inj (Prod.mk.inj cuts).2⟩

theorem toNat_digit {n : Nat} {c : Char} (h : c ∈ Nat.toDigits 10 n) :
    48 ≤ c.toNat ∧ c.toNat ≤ 57 ∧ c.toNat.toUInt8.toNat = c.toNat := by
  have digit := Char.isDigit_iff_toNat.mp
    (Nat.isDigit_of_mem_toDigits (by decide) (by decide) h)
  simp only [Char.reduceToNat] at digit
  have byte : c.toNat < 256 := Nat.lt_of_le_of_lt digit.2 (by decide)
  exact ⟨digit.1, digit.2, by rw [Nat.toUInt8_eq, UInt8.toNat_ofNat', Nat.mod_eq_of_lt byte]⟩

theorem digit_of_mem_ofNat {n : Nat} {b : UInt8} (h : b ∈ ofNat n) :
    48 ≤ b.toNat ∧ b.toNat ≤ 57 := by
  obtain ⟨c, hc, rfl⟩ := List.mem_map.mp h
  obtain ⟨low, high, same⟩ := toNat_digit hc
  rw [same]
  exact ⟨low, high⟩

theorem ofNat_inj {m n : Nat} (h : ofNat m = ofNat n) : m = n := by
  have back (n : Nat) : (ofNat n).map (fun b => Char.ofNat b.toNat) = Nat.toDigits 10 n := by
    rw [ofNat, List.map_map]
    refine (List.map_congr_left fun c hc => ?_).trans (List.map_id _)
    simp only [Function.comp_apply, (toNat_digit hc).2.2, Char.ofNat_toNat, id]
  have digits := congrArg (List.map fun b => Char.ofNat b.toNat) h
  rw [back, back] at digits
  calc m = Nat.ofDigitChars 10 (Nat.toDigits 10 m) 0 := Nat.ofDigitChars_ten_toDigits.symm
    _ = Nat.ofDigitChars 10 (Nat.toDigits 10 n) 0 := by rw [digits]
    _ = n := Nat.ofDigitChars_ten_toDigits

/-- A number has digits only, and perhaps a minus sign in front. -/
theorem mem_ofInt {n : Int} {b : UInt8} (h : b ∈ ofInt n) :
    b = 45 ∨ 48 ≤ b.toNat ∧ b.toNat ≤ 57 := by
  cases n with
  | ofNat n => exact .inr (digit_of_mem_ofNat h)
  | negSucc n =>
      rcases List.mem_cons.mp h with rfl | h
      · exact .inl rfl
      · exact .inr (digit_of_mem_ofNat h)

theorem ofInt_inj {m n : Int} (h : ofInt m = ofInt n) : m = n := by
  have sign (m n : Nat) : ofNat m ≠ utf8 "-" ++ ofNat n := fun same => by
    have digit := digit_of_mem_ofNat (n := m) (b := 45) (same ▸ List.mem_cons_self)
    revert digit
    decide
  cases m with
  | ofNat m =>
      cases n with
      | ofNat n => exact congrArg Int.ofNat (ofNat_inj h)
      | negSucc n => exact absurd h (sign m (n + 1))
  | negSucc m =>
      cases n with
      | ofNat n => exact absurd h.symm (sign n (m + 1))
      | negSucc n =>
          have digits := ofNat_inj (List.append_cancel_left h)
          exact congrArg Int.negSucc (Nat.succ.inj digits)

theorem notMem_ofInt {b : UInt8} (sign : b ≠ 45) (digit : ¬ (48 ≤ b.toNat ∧ b.toNat ≤ 57))
    (n : Int) : b ∉ ofInt n :=
  fun h => (mem_ofInt h).elim sign digit

def hexValue (b : UInt8) : Nat :=
  if b.toNat < 58 then b.toNat - 48 else b.toNat - 87

def readHex (t : Text) : Nat :=
  t.foldl (fun n b => n * 16 + hexValue b) 0

theorem hexValue_hexDigit : ∀ d < 16, hexValue (hexDigit d) = d := by
  decide

theorem length_hexNat (width n : Nat) : (hexNat width n).length = width := by
  induction width generalizing n with
  | zero => rfl
  | succ width ih => simp [hexNat, ih]

theorem readHex_append (t : Text) (b : UInt8) :
    readHex (t ++ [b]) = readHex t * 16 + hexValue b := by
  simp [readHex, List.foldl_append]

theorem readHex_hexNat (width n : Nat) (h : n < Nat.pow 16 width) :
    readHex (hexNat width n) = n := by
  induction width generalizing n with
  | zero =>
      have zero : n = 0 := Nat.lt_one_iff.mp h
      rw [zero]
      rfl
  | succ width ih =>
      have high : n / 16 < Nat.pow 16 width := Nat.div_lt_of_lt_mul (Nat.mul_comm _ _ ▸ h)
      rw [hexNat, readHex_append, ih _ high, hexValue_hexDigit _ (Nat.mod_lt _ (by decide))]
      exact Nat.div_add_mod' n 16

theorem hexByte_eq (b : UInt8) : hexByte b = hexNat 2 b.toNat := by
  have small : b.toNat / 16 % 16 = b.toNat / 16 := by
    have := b.toNat_lt
    omega
  simp [hexByte, hexNat, small]

/-- How many digits stand behind the letter of an escape. -/
def escapeWidth (letter : UInt8) : Option Nat :=
  if letter = 120 then some 2
  else if letter = 117 then some 4
  else if letter = 85 then some 8
  else none

/-- The glyph that is written as a number: from 128 on a number of two digits is a stray byte. -/
def glyphOfNumber (width n : Nat) : Glyph :=
  if width = 2 ∧ 128 ≤ n then .stray n.toUInt8 else .char (Char.ofNat n)

/-- The character that is written as a letter behind a backslash. -/
def escapedChar (letter : UInt8) : Char :=
  match letter with
  | 97 => '\x07'
  | 98 => '\x08'
  | 116 => '\t'
  | 110 => '\n'
  | 118 => '\x0b'
  | 102 => '\x0c'
  | 114 => '\x0d'
  | b => Char.ofNat b.toNat

/-- The glyph at the start of a quoted text, and what stands behind it. -/
def readEscape : Text → Option (Glyph × Text)
  | [] => none
  | 92 :: letter :: rest =>
    match escapeWidth letter with
    | some width => some (glyphOfNumber width (readHex (rest.take width)), rest.drop width)
    | none => some (.char (escapedChar letter), rest)
  | a :: rest => some ((Glyph.read a rest).1, rest.drop (Glyph.read a rest).2)

theorem readEscape_number (letter : UInt8) {width : Nat} (h : escapeWidth letter = some width)
    {n : Nat} (small : n < Nat.pow 16 width) (rest : Text) :
    readEscape (92 :: letter :: (hexNat width n ++ rest)) = some (glyphOfNumber width n, rest) := by
  have length := length_hexNat width n
  rw [readEscape, h]
  simp only [List.take_left' length, List.drop_left' length, readHex_hexNat width n small]

theorem readEscape_letter (letter : UInt8) (h : escapeWidth letter = none) (rest : Text) :
    readEscape (92 :: letter :: rest) = some (.char (escapedChar letter), rest) := by
  rw [readEscape, h]

theorem readEscape_encode {c : Char} (h : c ≠ '\\') (rest : Text) :
    readEscape (String.utf8EncodeChar c ++ rest) = some (.char c, rest) := by
  obtain ⟨a, tail, encode, read⟩ := Glyph.read_encode c rest
  have first : a ≠ 92 := by
    rintro rfl
    have alone : String.utf8EncodeChar c = [92] :=
      Glyph.encode_of_ascii (by decide) (by simp [encode])
    have same := glyphs_encode c []
    rw [alone] at same
    exact h (Glyph.char.inj (List.cons.inj same).1).symm
  rw [encode, List.cons_append, readEscape, read, List.drop_left]
  rintro _ _ rfl
  exact absurd rfl first

theorem readEscape_short {c letter : Char} (h : shortEscape c = some letter) (rest : Text) :
    readEscape (utf8 "\\" ++ String.utf8EncodeChar letter ++ rest) = some (.char c, rest) := by
  have same : Char.ofNat c.toNat = c := Char.ofNat_toNat c
  simp only [shortEscape] at h
  split at h <;> cases h
  all_goals
    rename_i number
    rw [number] at same
    subst same
    exact readEscape_letter _ (by decide) rest

/-- A glyph is read back from its escape, whatever stands behind it. -/
theorem readEscape_escape {g : Glyph} (high : ∀ b, g = .stray b → 128 ≤ b.toNat) (rest : Text) :
    readEscape (g.escape '"' ++ rest) = some (g, rest) := by
  have mark : utf8 "\\x" = [92, 120] := by decide
  cases g with
  | stray b =>
      have two := readEscape_number 120 rfl (n := b.toNat) b.toNat_lt rest
      have stray : glyphOfNumber 2 b.toNat = .stray b := by
        simp [glyphOfNumber, high b rfl]
      rw [Glyph.escape, mark, hexByte_eq]
      exact two.trans (by rw [stray])
  | char c =>
      have valid : c.toNat < 1114112 := by
        have := c.valid
        simp only [UInt32.isValidChar, Nat.isValidChar] at this
        simp only [Char.toNat]
        omega
      have number (letter : UInt8) {width : Nat} (h : escapeWidth letter = some width)
          (small : c.toNat < Nat.pow 16 width) (ascii : width = 2 → c.toNat < 128) :
          readEscape (92 :: letter :: (hexNat width c.toNat ++ rest)) = some (.char c, rest) := by
        rw [readEscape_number letter h small, glyphOfNumber, if_neg (by omega), Char.ofNat_toNat]
      rw [Glyph.escape, escapeChar]
      split
      · rename_i marked
        rcases Bool.or_eq_true_iff.mp marked with quote | backslash
        · rw [beq_iff_eq.mp quote]
          exact readEscape_letter 34 (by decide) rest
        · rw [beq_iff_eq.mp backslash]
          exact readEscape_letter 92 (by decide) rest
      · rename_i unmarked
        split
        · exact readEscape_encode (fun same => unmarked (by simp [same])) rest
        · split
          · rename_i letter short
            exact readEscape_short short rest
          · simp only
            split
            · rename_i ascii
              exact number 120 rfl (Nat.lt_trans ascii (by decide)) fun _ => ascii
            · split
              · rename_i basic
                exact number 117 rfl basic fun h => absurd h (by decide)
              · exact number 85 rfl (Nat.lt_trans valid (by decide)) fun h =>
                  absurd h (by decide)

theorem drop_of_stray {a b : UInt8} {rest : Text} (h : (Glyph.read a rest).1 = .stray b) :
    b = a ∧ rest.drop (Glyph.read a rest).2 = rest := by
  have whole := Glyph.bytes_read a rest
  rw [h] at whole
  exact List.cons.inj whole

theorem stray_of_read {a b : UInt8} {rest : Text} (h : (Glyph.read a rest).1 = .stray b) :
    128 ≤ b.toNat := by
  obtain ⟨rfl, -⟩ := drop_of_stray h
  apply Nat.le_of_not_lt
  intro ascii
  rw [Glyph.read_one ascii] at h
  cases h

theorem stray_of_mem_glyphs {t : Text} {b : UInt8} (h : .stray b ∈ t.glyphs) : 128 ≤ b.toNat := by
  induction hl : t.length using Nat.strongRecOn generalizing t with
  | _ n ih =>
      cases t with
      | nil => cases h
      | cons a rest =>
          rw [glyphs_cons] at h
          rcases List.mem_cons.mp h with first | later
          · exact stray_of_read first.symm
          · refine ih _ ?_ later rfl
            simp only [← hl, List.length_drop, List.length_cons]
            omega

theorem escapes_inj {gs hs : List Glyph} (hg : ∀ b, .stray b ∈ gs → 128 ≤ b.toNat)
    (hh : ∀ b, .stray b ∈ hs → 128 ≤ b.toNat)
    (same : gs.flatMap (Glyph.escape '"') = hs.flatMap (Glyph.escape '"')) : gs = hs := by
  have first {g : Glyph} {gs : List Glyph} (high : ∀ b, .stray b ∈ g :: gs → 128 ≤ b.toNat) :
      readEscape ((g :: gs).flatMap (Glyph.escape '"')) =
        some (g, gs.flatMap (Glyph.escape '"')) :=
    readEscape_escape (fun b hb => high b (hb ▸ List.mem_cons_self)) _
  induction gs generalizing hs with
  | nil =>
      cases hs with
      | nil => rfl
      | cons h hs =>
          have read := first hh
          rw [← same] at read
          cases read
  | cons g gs ih =>
      have read := first hg
      rw [same] at read
      cases hs with
      | nil => cases read
      | cons h hs =>
          rw [first hh] at read
          obtain ⟨rfl, rest⟩ := Prod.mk.inj (Option.some.inj read)
          rw [ih (fun b hb => hg b (List.mem_cons_of_mem _ hb))
            (fun b hb => hh b (List.mem_cons_of_mem _ hb)) rest.symm]

/-- A quoted text determines the text, of whatever bytes it is. -/
theorem quote_inj {s t : Text} (h : s.quote = t.quote) : s = t := by
  have escapes := List.append_cancel_left (List.append_cancel_right h)
  have glyphs := escapes_inj (fun _ => stray_of_mem_glyphs) (fun _ => stray_of_mem_glyphs) escapes
  rw [← ofGlyphs_glyphs s, glyphs, ofGlyphs_glyphs]

end Text

namespace Key

/-- A name that can be told from its neighbours in a chord: it is the separator itself, or is
free of it. -/
def Apart (name : Text) : Prop :=
  name = [43] ∨ name ≠ [] ∧ 43 ∉ name

theorem apart_of_isName {name : Text} (h : isName name) : Apart name := by
  have all : ∀ name ∈ names, name = [43] ∨ name ≠ [] ∧ 43 ∉ name := by decide +kernel
  exact all name (List.contains_iff_mem.mp h)

theorem Apart.ne_nil {name : Text} (h : Apart name) : name ≠ [] := by
  rcases h with rfl | ⟨filled, -⟩
  · exact List.cons_ne_nil _ _
  · exact filled

/-- The rest of a chord behind one of its keys. -/
def behindKey : List Text → Text
  | [] => []
  | key :: rest => 43 :: Action.chord (key :: rest)

theorem chord_cons (key : Text) (rest : List Text) :
    Action.chord (key :: rest) = key ++ behindKey rest := by
  have plus : utf8 "+" = [43] := by decide
  cases rest with
  | nil => simp [Action.chord, Text.join, behindKey]
  | cons next rest =>
      simp [Action.chord, Text.join, behindKey, List.intercalate_cons_cons, plus]

theorem append_behindKey_inj {key key' : Text} (h : Apart key) (h' : Apart key')
    {rest rest' : List Text} (same : key ++ behindKey rest = key' ++ behindKey rest') :
    key = key' ∧ behindKey rest = behindKey rest' := by
  rcases h with rfl | ⟨filled, free⟩ <;> rcases h' with rfl | ⟨filled', free'⟩
  · exact ⟨rfl, List.append_cancel_left same⟩
  · obtain ⟨b, key', rfl⟩ := List.exists_cons_of_ne_nil filled'
    exact absurd ((List.cons.inj same).1 ▸ List.mem_cons_self) free'
  · obtain ⟨b, key, rfl⟩ := List.exists_cons_of_ne_nil filled
    exact absurd ((List.cons.inj same).1 ▸ List.mem_cons_self) free
  · cases rest with
    | nil =>
        cases rest' with
        | nil => exact ⟨List.append_cancel_right same, rfl⟩
        | cons next rest' =>
            have whole : key = key' ++ 43 :: _ := (List.append_nil key).symm.trans same
            exact absurd (whole ▸ List.mem_append_right _ List.mem_cons_self) free
    | cons next rest =>
        cases rest' with
        | nil =>
            have whole : key' = key ++ 43 :: _ := (List.append_nil key').symm.trans same.symm
            exact absurd (whole ▸ List.mem_append_right _ List.mem_cons_self) free'
        | cons next' rest' =>
            obtain ⟨keys, chords⟩ := Text.append_cons_inj free free' same
            exact ⟨keys, congrArg (43 :: ·) chords⟩

/-- A chord determines its keys, though the separator is itself the name of one. -/
theorem chord_inj {keys keys' : List Text} (h : ∀ key ∈ keys, Apart key)
    (h' : ∀ key ∈ keys', Apart key) (same : Action.chord keys = Action.chord keys') :
    keys = keys' := by
  have ne_nil {key : Text} {rest : List Text} (h : Apart key) :
      Action.chord (key :: rest) ≠ [] := by
    rw [chord_cons]
    exact List.append_ne_nil_of_left_ne_nil h.ne_nil _
  induction keys generalizing keys' with
  | nil =>
      cases keys' with
      | nil => rfl
      | cons key' rest' => exact absurd same.symm (ne_nil (h' key' List.mem_cons_self))
  | cons key rest ih =>
      cases keys' with
      | nil => exact absurd same (ne_nil (h key List.mem_cons_self))
      | cons key' rest' =>
          rw [chord_cons, chord_cons] at same
          obtain ⟨rfl, others⟩ := append_behindKey_inj (h key List.mem_cons_self)
            (h' key' List.mem_cons_self) same
          have chords : Action.chord rest = Action.chord rest' := by
            cases rest <;> cases rest' <;> simp_all [behindKey]
          rw [ih (fun key hk => h key (List.mem_cons_of_mem _ hk))
            (fun key hk => h' key (List.mem_cons_of_mem _ hk)) chords]

end Key
end KeyScript
