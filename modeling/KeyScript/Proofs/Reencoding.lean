import KeyScript.Proofs.BinaryForm
import KeyScript.Proofs.Statements

/-!
Reading a plan and writing it again. A reader takes every item from the front of
its text, so whatever spelling it accepts, the strings of an item are no longer
than the text and no array has more items than the limit. Hence the plan that is
read keeps to what its binary form can hold, and is read back from it.
-/

namespace KeyScript
namespace Cbor

/-- An item as it can be read from `size` bytes with a limit on counts: no array holds more items
than the limit, and no text string more bytes than there were. Keys of maps are left out, no
field takes its value from one. -/
inductive Item.Within (limit size : Nat) : Item → Prop
  | unsigned (n : Nat) : Within limit size (.unsigned n)
  | negative (n : Nat) : Within limit size (.negative n)
  | bytes (chunks : List Text) : Within limit size (.bytes chunks)
  | text {chunks : List Text} : chunks.flatten.length ≤ size → Within limit size (.text chunks)
  | array {items : List Item} :
      items.length ≤ limit → (∀ i ∈ items, Within limit size i) → Within limit size (.array items)
  | map {entries : List (Item × Item)} :
      (∀ e ∈ entries, Within limit size e.2) → Within limit size (.map entries)
  | tag (n : Nat) {content : Item} : Within limit size content → Within limit size (.tag n content)
  | simple (n : Nat) : Within limit size (.simple n)
  | float (bits : Nat) : Within limit size (.float bits)

theorem takeBytes_eq_some {n : Nat} {t found rest : Text}
    (h : takeBytes n t = some (found, rest)) : t = found ++ rest := by
  simp only [takeBytes] at h
  split at h
  · cases h
    exact (List.take_append_drop n t).symm
  · cases h

theorem readHead_suffix {t rest : Text} {head : Head} (h : readHead t = some (head, rest)) :
    rest <:+ t := by
  cases t with
  | nil => cases h
  | cons b t =>
      simp only [readHead] at h
      split at h
      · cases h
        exact List.suffix_cons b _
      · split at h
        · split at h
          · rename_i digits behind taken
            cases h
            rw [takeBytes_eq_some taken]
            exact (List.suffix_append digits rest).trans (List.suffix_cons b _)
          · cases h
        · split at h
          · cases h
            exact List.suffix_cons b _
          · cases h

section

variable {limit size : Nat}

/-- A reader that takes items within the limits from the front of its text. -/
def Reader.Bounded (limit size : Nat) (read : Reader) : Prop :=
  ∀ t item rest, t.length ≤ size → read t = some (item, rest) →
    item.Within limit size ∧ rest <:+ t

theorem readMany_bounded {read : Reader} (bounded : read.Bounded limit size) {n : Nat}
    {found : Array Item} {t : Text} {items : List Item} {rest : Text}
    (before : ∀ i ∈ found, i.Within limit size) (short : t.length ≤ size)
    (h : readMany read n found t = some (items, rest)) :
    (∀ i ∈ items, i.Within limit size) ∧ items.length = found.size + n ∧ rest <:+ t := by
  induction n generalizing found t with
  | zero =>
      cases h
      exact ⟨by simpa using before, Array.length_toList, List.suffix_refl _⟩
  | succ n ih =>
      simp only [readMany] at h
      split at h
      · rename_i item behind first
        obtain ⟨within, suffix⟩ := bounded _ _ _ short first
        have more := Array.forall_mem_push.mpr ⟨within, before⟩
        obtain ⟨all, length, suffix'⟩ := ih more (Nat.le_trans suffix.length_le short) h
        refine ⟨all, ?_, suffix'.trans suffix⟩
        rw [length, Array.size_push]
        omega
      · cases h

theorem readToBreak_bounded {read : Reader} (bounded : read.Bounded limit size) {n : Nat}
    {found : Array Item} {t : Text} {items : List Item} {rest : Text}
    (before : ∀ i ∈ found, i.Within limit size) (short : t.length ≤ size)
    (h : readToBreak read n found t = some (items, rest)) :
    (∀ i ∈ items, i.Within limit size) ∧ items.length ≤ found.size + n ∧ rest <:+ t := by
  induction n generalizing found t with
  | zero =>
      cases t with
      | nil => cases h
      | cons b t =>
          simp only [readToBreak] at h
          split at h
          · cases h
            exact ⟨by simpa using before, Nat.le_of_eq Array.length_toList, List.suffix_cons b _⟩
          · cases h
  | succ n ih =>
      cases t with
      | nil => cases h
      | cons b t =>
          simp only [readToBreak] at h
          split at h
          · cases h
            exact ⟨by simpa using before, by simp, List.suffix_cons b _⟩
          · split at h
            · rename_i item behind first
              obtain ⟨within, suffix⟩ := bounded _ _ _ short first
              have more := Array.forall_mem_push.mpr ⟨within, before⟩
              obtain ⟨all, length, suffix'⟩ := ih more (Nat.le_trans suffix.length_le short) h
              refine ⟨all, ?_, suffix'.trans suffix⟩
              rw [Array.size_push] at length
              omega
            · cases h

theorem readItems_bounded {read : Reader} (bounded : read.Bounded limit size) {each : Nat}
    {head : Head} {t : Text} {items : List Item} {rest : Text} (short : t.length ≤ size)
    (h : readItems limit (some read) each head t = some (items, rest)) :
    (∀ i ∈ items, i.Within limit size) ∧ items.length ≤ each * limit ∧ rest <:+ t := by
  have nothing : ∀ i ∈ (#[] : Array Item), i.Within limit size :=
    fun _ hi => absurd hi (Array.not_mem_empty _)
  simp only [readItems] at h
  split at h
  · simpa using readToBreak_bounded bounded nothing short h
  · split at h
    · cases h
    · rename_i few
      obtain ⟨all, length, suffix⟩ := readMany_bounded bounded nothing short h
      refine ⟨all, ?_, suffix⟩
      rw [length, Array.size_empty, Nat.zero_add]
      exact Nat.mul_le_mul_left each (Nat.le_of_not_lt few)

theorem pairUp_within {found : Array (Item × Item)} {items : List Item}
    {entries : List (Item × Item)} (before : ∀ e ∈ found, e.2.Within limit size)
    (all : ∀ i ∈ items, i.Within limit size) (h : pairUp found items = some entries) :
    ∀ e ∈ entries, e.2.Within limit size := by
  fun_induction pairUp found items with
  | case1 found =>
      cases h
      exact fun e he => before e (Array.mem_toList_iff.mp he)
  | case2 found item => cases h
  | case3 found key value rest ih =>
      obtain ⟨-, within, others⟩ :
          key.Within limit size ∧ value.Within limit size ∧ ∀ i ∈ rest, i.Within limit size := by
        simpa using all
      exact ih (Array.forall_mem_push.mpr ⟨within, before⟩) others h

/-- The chunks of a string lie apart from each other in its text. -/
theorem readChunks_length {kind : Kind} {n : Nat} {found : Array Text} {t : Text}
    {chunks : List Text} {rest : Text} (h : readChunks kind n found t = some (chunks, rest)) :
    chunks.flatten.length ≤ found.toList.flatten.length + t.length ∧ rest <:+ t := by
  induction n generalizing found t with
  | zero => cases h
  | succ n ih =>
      simp only [readChunks] at h
      split at h
      · cases h
        exact ⟨Nat.le_add_right _ _, List.tail_suffix t⟩
      · split at h
        · rename_i head behind first
          split at h
          · split at h
            · rename_i chunk behind' taken
              obtain ⟨length, suffix⟩ := ih h
              have front := readHead_suffix first
              have cut := takeBytes_eq_some taken
              have longer := front.length_le
              rw [cut] at front longer
              rw [Array.toList_push, List.flatten_append, List.length_append,
                List.flatten_singleton] at length
              rw [List.length_append] at longer
              exact ⟨by omega, suffix.trans ((List.suffix_append chunk behind').trans front)⟩
            · cases h
          · cases h
        · cases h

theorem readString_length {head : Head} {t : Text} {chunks : List Text} {rest : Text}
    (h : readString head t = some (chunks, rest)) :
    chunks.flatten.length ≤ t.length ∧ rest <:+ t := by
  simp only [readString] at h
  split at h
  · simpa using readChunks_length h
  · split at h
    · rename_i chunk behind taken
      cases h
      rw [takeBytes_eq_some taken]
      simp
    · cases h

theorem readBody_bounded {inner : Option Reader} (bounded : ∀ read ∈ inner, read.Bounded limit size)
    {head : Head} {t : Text} {item : Item} {rest : Text} (short : t.length ≤ size)
    (h : readBody limit inner head t = some (item, rest)) :
    item.Within limit size ∧ rest <:+ t := by
  have inside {each : Nat} {items : List Item} {rest : Text}
      (h : readItems limit inner each head t = some (items, rest)) :
      (∀ i ∈ items, i.Within limit size) ∧ items.length ≤ each * limit ∧ rest <:+ t := by
    cases inner with
    | none => cases h
    | some read => exact readItems_bounded (bounded read rfl) short h
  unfold readBody at h
  split at h
  · split at h
    · cases h
    · cases h
      exact ⟨.unsigned _, List.suffix_refl _⟩
  · split at h
    · cases h
    · cases h
      exact ⟨.negative _, List.suffix_refl _⟩
  · split at h
    · rename_i chunks behind read
      cases h
      exact ⟨.bytes _, (readString_length read).2⟩
    · cases h
  · split at h
    · rename_i chunks behind read
      cases h
      obtain ⟨length, suffix⟩ := readString_length read
      exact ⟨.text (Nat.le_trans length short), suffix⟩
    · cases h
  · split at h
    · rename_i items behind read
      cases h
      obtain ⟨all, length, suffix⟩ := inside read
      exact ⟨.array (by simpa using length) all, suffix⟩
    · cases h
  · split at h
    · rename_i items behind read
      split at h
      · rename_i entries paired
        cases h
        obtain ⟨all, -, suffix⟩ := inside read
        have pairs := pairUp_within (fun _ he => absurd he (Array.not_mem_empty _)) all paired
        exact ⟨.map pairs, suffix⟩
      · cases h
    · cases h
  · cases h
  · split at h
    · cases h
      exact ⟨.simple _, List.suffix_refl _⟩
    · split at h
      · cases h
      · cases h
        exact ⟨.simple _, List.suffix_refl _⟩
    · cases h
      exact ⟨.float _, List.suffix_refl _⟩
    · cases h

theorem readItem_bounded {content : Reader} {inner : Option Reader}
    (tagged : content.Bounded limit size) (bounded : ∀ read ∈ inner, read.Bounded limit size) :
    Reader.Bounded limit size (readItem limit content inner) := by
  intro t item rest short h
  simp only [readItem] at h
  split at h
  · cases h
  · rename_i head behind first
    have front := readHead_suffix first
    have short' : behind.length ≤ size := Nat.le_trans front.length_le short
    split at h
    · split at h
      · cases h
      · split at h
        · rename_i read
          cases h
          obtain ⟨within, suffix⟩ := tagged _ _ _ short' read
          exact ⟨.tag _ within, suffix.trans front⟩
        · cases h
    · obtain ⟨within, suffix⟩ := readBody_bounded bounded short' h
      exact ⟨within, suffix.trans front⟩

theorem above_bounded {inner : Option Readers}
    (h : ∀ r ∈ inner, r.item.Bounded limit size ∧ r.content.Bounded limit size) :
    (Readers.above limit inner).item.Bounded limit size ∧
      (Readers.above limit inner).content.Bounded limit size := by
  have items : ∀ read ∈ inner.map Readers.item, read.Bounded limit size := by
    intro read member
    obtain ⟨r, hr, rfl⟩ := Option.map_eq_some_iff.mp member
    exact (h r hr).1
  have contents : Reader.Bounded limit size fun t => inner.bind fun r => r.content t := by
    intro t item rest short read
    obtain ⟨r, hr, read⟩ := Option.bind_eq_some_iff.mp read
    exact (h r hr).2 _ _ _ short read
  have content := readItem_bounded contents items
  exact ⟨readItem_bounded content items, content⟩

theorem readers_bounded (level : Nat) :
    (readers limit level).item.Bounded limit size ∧
      (readers limit level).content.Bounded limit size := by
  induction level with
  | zero => exact above_bounded fun _ none => by cases none
  | succ level ih => exact above_bounded fun _ same => Option.some.inj same ▸ ih

namespace Item

theorem read_within {t : Text} {item : Item} (h : Item.read t = some item) :
    item.Within maxCount t.length := by
  simp only [Item.read] at h
  split at h
  · rename_i found read
    cases h
    exact ((readers_bounded maxLevels).1 _ _ _ (Nat.le_refl _) read).1
  · cases h

theorem Within.untagged {item content : Item} (within : item.Within limit size)
    (h : item.untagged = some content) : content.Within limit size := by
  induction within with
  | tag n within ih =>
      rename_i inside
      simp only [Item.untagged] at h
      split at h
      · cases h
      · split at h
        · cases h
          exact .tag n within
        · exact ih h
  | unsigned n => cases h; exact .unsigned n
  | negative n => cases h; exact .negative n
  | bytes chunks => cases h; exact .bytes chunks
  | text short => cases h; exact .text short
  | array few all ih => cases h; exact .array few all
  | map all ih => cases h; exact .map all
  | simple n => cases h; exact .simple n
  | float bits => cases h; exact .float bits

/-- An integer field lies in its range; null stands for zero, which is in every range. -/
theorem toInt?_range {low high n : Int} {item : Item} (zero : low ≤ 0 ∧ 0 ≤ high)
    (h : item.toInt? low high = some n) : low ≤ n ∧ n ≤ high := by
  have range {m : Int} (h : (if low ≤ m ∧ m ≤ high then some m else none) = some n) :
      low ≤ n ∧ n ≤ high := by
    split at h
    · rename_i inside
      exact Option.some.inj h ▸ inside
    · cases h
  unfold toInt? at h
  dsimp only at h
  split at h
  · exact range h
  · exact range h
  · exact range h
  · exact range h
  · split at h
    · cases h
    · split at h
      · cases h
        exact zero
      · exact range h
  · cases h

theorem toText?_bounded {item : Item} {t : Text} (within : item.Within limit size)
    (h : item.toText? = some t) : t.isValid ∧ t.length ≤ size := by
  unfold toText? at h
  split at h
  · rename_i chunks inside
    split at h
    · rename_i valid
      cases h
      have each : ∀ chunk ∈ chunks, Text.IsUtf8 chunk := by
        simpa only [List.all_eq_true, Text.isValid_iff] using valid
      cases within.untagged inside with
      | text short => exact ⟨(Text.isValid_iff _).mpr (Text.isUtf8_flatten each), short⟩
    · cases h
  · split at h
    · cases h
      exact ⟨rfl, Nat.zero_le _⟩
    · cases h
  · cases h

theorem toList?_bounded {α : Type} {read : Item → Option α} {item : Item} {xs : List α}
    (within : item.Within limit size) (h : item.toList? read = some xs) :
    xs.length ≤ limit ∧ ∀ x ∈ xs, ∃ i : Item, i.Within limit size ∧ read i = some x := by
  unfold toList? at h
  split at h
  · rename_i items inside
    have each : items.map read = xs.map some := mapM_id_eq_some (List.mapM_map.trans h)
    cases within.untagged inside with
    | array few all =>
        constructor
        · have lengths := congrArg List.length each
          rw [List.length_map, List.length_map] at lengths
          exact lengths ▸ few
        · intro x hx
          obtain ⟨i, hi, read⟩ := List.mem_map.mp (each ▸ List.mem_map_of_mem hx)
          exact ⟨i, all i hi, read⟩
  · split at h
    · cases h
      exact ⟨Nat.zero_le _, fun _ hx => absurd hx List.not_mem_nil⟩
    · cases h
  · cases h

end Item
end
end Cbor

open Cbor

section

variable {limit size : Nat}

theorem entriesOf_within {item : Item} {entries : List (FieldKey × Item)}
    (within : item.Within limit size) (h : entriesOf item = some entries) :
    ∀ e ∈ entries, e.2.Within limit size := by
  unfold entriesOf at h
  split at h
  · rename_i given inside
    cases within.untagged inside with
    | map all =>
        intro e he
        have each := mapM_id_eq_some (List.mapM_map.trans h)
        obtain ⟨⟨key, value⟩, hentry, read⟩ := List.mem_map.mp (each ▸ List.mem_map_of_mem he)
        obtain ⟨name, -, rfl⟩ := Option.map_eq_some_iff.mp read
        exact all (key, value) hentry
  · split at h
    · cases h
      exact fun _ he => absurd he List.not_mem_nil
    · cases h
  · cases h

/-- What holds of the zero of a field and of whatever is read for it holds of the field. -/
theorem fieldOf_forall {α : Type} {P : α → Prop} {entries : List (FieldKey × Item)} {n : Nat}
    {read : Item → Option α} {zero value : α} (missing : P zero)
    (present : ∀ e ∈ entries, ∀ a, read e.2 = some a → P a)
    (h : fieldOf entries n read zero = some value) : P value := by
  unfold fieldOf at h
  split at h
  · rename_i e found
    exact present e (List.mem_of_find?_eq_some found) value h
  · cases h
    exact missing

end

/-- A step that can be read from `size` bytes with a limit on counts. -/
structure Step.Readable (limit size : Nat) (s : Step) : Prop where
  numbers : ∀ n ∈ s.numbers, IsInt64 n
  texts : ∀ t ∈ s.texts, t.isValid ∧ t.length ≤ size
  keys : s.keys.length ≤ limit

theorem Step.ofItem?_readable {limit size : Nat} {item : Item} {s : Step}
    (within : item.Within limit size) (h : Step.ofItem? item = some s) :
    s.Readable limit size := by
  unfold Step.ofItem? at h
  simp only [Option.bind_eq_bind, Option.bind_eq_some_iff, Option.pure_def, Option.some.injEq] at h
  obtain ⟨entries, given, line, hline, verb, hverb, raw, hraw, text, htext, millis, hmillis, count,
    hcount, keys, hkeys, target, htarget, skips, -, rfl⟩ := h
  have all := entriesOf_within within given
  have int {n : Nat} {value : Int} (h : fieldOf entries n Item.toInt64? 0 = some value) :
      IsInt64 value :=
    fieldOf_forall (by decide) (fun _ _ _ => Item.toInt?_range (by decide)) h
  have string {n : Nat} {t : Text} (h : fieldOf entries n Item.toText? [] = some t) :
      t.isValid ∧ t.length ≤ size :=
    fieldOf_forall (P := fun t => t.isValid ∧ t.length ≤ size) ⟨rfl, Nat.zero_le _⟩
      (fun e he _ => Item.toText?_bounded (all e he)) h
  have strings : keys.length ≤ limit ∧ ∀ t ∈ keys, t.isValid ∧ t.length ≤ size := by
    refine fieldOf_forall (P := fun keys : List Text =>
      keys.length ≤ limit ∧ ∀ t ∈ keys, t.isValid ∧ t.length ≤ size) ?_ ?_ hkeys
    · exact ⟨Nat.zero_le _, fun _ ht => absurd ht List.not_mem_nil⟩
    intro e he found read
    obtain ⟨few, each⟩ := Item.toList?_bounded (all e he) read
    refine ⟨few, fun t ht => ?_⟩
    obtain ⟨i, inside, read⟩ := each t ht
    exact Item.toText?_bounded inside read
  refine ⟨?_, ?_, strings.1⟩
  · simp only [Step.numbers, List.forall_mem_cons]
    exact ⟨int hline, int hmillis, int hcount, int htarget,
      fun _ hn => absurd hn List.not_mem_nil⟩
  · simp only [Step.texts, List.forall_mem_cons]
    exact ⟨string hverb, string hraw, string htext, strings.2⟩

namespace Plan

/-- What is read as a plan keeps to what the binary form of a plan can hold. -/
theorem decode_readable {b : Text} {p : Plan} (h : decode b = .ok p) :
    p.source = [] ∧ p.steps.length ≤ maxCount ∧ ∀ s ∈ p.steps, s.Readable maxCount b.length := by
  unfold decode at h
  split at h
  · cases h
  · rename_i version steps read
    split at h
    · cases h
      obtain ⟨item, read, parts⟩ := Option.bind_eq_some_iff.mp read
      have within := Item.read_within read
      unfold partsOfItem? at parts
      simp only [Option.bind_eq_bind, Option.bind_eq_some_iff, Option.pure_def, Option.some.injEq,
        Prod.mk.injEq] at parts
      obtain ⟨entries, given, found, -, list, hsteps, -, rfl⟩ := parts
      refine ⟨rfl, ?_⟩
      refine fieldOf_forall (P := fun steps : List Step => steps.length ≤ maxCount ∧
        ∀ s ∈ steps, s.Readable maxCount b.length) ?_ ?_ hsteps
      · exact ⟨Nat.zero_le _, fun _ hs => absurd hs List.not_mem_nil⟩
      · intro e he found read
        obtain ⟨few, each⟩ := Item.toList?_bounded (entriesOf_within within given e he) read
        refine ⟨few, fun s hs => ?_⟩
        obtain ⟨i, inside, read⟩ := each s hs
        exact Step.ofItem?_readable inside read
    · cases h

theorem Sized.of_decode {b : Text} {p : Plan} (size : IsInt64 b.length) (h : decode b = .ok p) :
    p.Sized := by
  obtain ⟨-, few, each⟩ := decode_readable h
  have count {n : Nat} (few : n ≤ maxCount) : IsInt64 n := by
    simp only [IsInt64, maxCount] at *
    omega
  refine ⟨count few, fun s hs => ?_⟩
  obtain ⟨numbers, texts, keys⟩ := each s hs
  refine ⟨numbers, fun t ht => ?_, count keys⟩
  have short := (texts t ht).2
  simp only [IsInt64] at *
  omega

/-- A text that is read as a plan and written again. -/
def reencode (b : Text) : Except DecodeFault Text :=
  (decode b).map encode

theorem decode_encode_of_decode {b : Text} {p : Plan} (size : IsInt64 b.length)
    (h : decode b = .ok p) : decode p.encode = .ok p := by
  obtain ⟨source, few, each⟩ := decode_readable h
  have wellFormed : ∀ s ∈ p.steps, s.wellFormed := fun s hs =>
    List.all_eq_true.mpr fun t ht => ((each s hs).texts t ht).1
  have same : ({ steps := p.steps } : Plan) = p := by
    rw [← source]
  rw [decode_encode_eq (Sized.of_decode size h), same]
  exact if_pos ⟨wellFormed, few, fun s hs => (each s hs).keys⟩

/-- Whatever spelling of a plan is accepted, its binary form is read as the same plan. So reading
and writing again changes a text at most once, and does not change one that was written by
`encode`. -/
theorem reencoding_normalises {b : Text} (size : IsInt64 b.length) {p : Plan}
    (accepted : decode b = .ok p) :
    decode p.encode = .ok p ∧
      (reencode b = .ok p.encode ∧ reencode p.encode = .ok p.encode) ∧
      ∀ q : Plan, q.Sized → b = q.encode → p.encode = b := by
  have again := decode_encode_of_decode size accepted
  refine ⟨again, ⟨?_, ?_⟩, ?_⟩
  · rw [reencode, accepted]
    rfl
  · rw [reencode, again]
    rfl
  · rintro q sized rfl
    rw [decode_encode_eq sized] at accepted
    split at accepted
    · cases accepted
      exact encode_congr rfl
    · cases accepted

/-- The steps under a text as key and ahead of the version, lengths left out, heads that are not
shortest, a field given twice, an unknown one, a tag, a large number and a text in chunks. -/
theorem reencoding_normalises_unusual :
    let b : Text :=
      [0xBF, 0x61, 0x32, 0x9F, 0xA4, 0x08, 0xC2, 0x41, 0x05, 0x18, 0x01, 0x19, 0x00, 0x07,
        0x02, 0x7F, 0x61, 0x61, 0x61, 0x62, 0xFF, 0x01, 0x09, 0xFF, 0x18, 0x63, 0x80,
        0x01, 0xD8, 0x2A, 0x01, 0xFF]
    let p : Plan := { steps := [{ line := 7, verb := utf8 "ab", target := 5 }] }
    decode b = .ok p ∧ decode p.encode = .ok p ∧ reencode b = .ok p.encode ∧
      reencode p.encode = .ok p.encode ∧ b ≠ p.encode := by
  intro b p
  have accepted : decode b = .ok p := by rfl
  obtain ⟨again, ⟨first, second⟩, -⟩ := reencoding_normalises (by decide) accepted
  exact ⟨accepted, again, first, second, by decide +kernel⟩

end Plan
end KeyScript
