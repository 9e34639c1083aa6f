import KeyScript.Plan.Digest
import KeyScript.Proofs.Utf8
import KeyScript.Proofs.Wire

/-!
The binary form of a plan as the shortest form of one item. The item holds every
field of every step, so the form tells steps apart that differ anywhere, and it
can be read back unless a text in it is not well-formed or a count is over the
limit of the reader.
-/

namespace KeyScript

open Cbor

/-- An integer of 64 bits. -/
def IsInt64 (n : Int) : Prop :=
  -9223372036854775808 ≤ n ∧ n ≤ 9223372036854775807

instance (n : Int) : Decidable (IsInt64 n) :=
  inferInstanceAs (Decidable (_ ∧ _))

theorem IsInt64.lt_wordLimit {n : Nat} (h : IsInt64 n) : n < wordLimit := by
  simp only [IsInt64, wordLimit] at *
  omega

namespace Step

/-- The numbers of a step. -/
def numbers (s : Step) : List Int :=
  [s.line, s.millis, s.count, s.target]

/-- The texts of a step, its keys among them. -/
def texts (s : Step) : List Text :=
  s.verb :: s.raw :: s.text :: s.keys

/-- A step whose numbers are integers of 64 bits, as are the lengths of its texts and of its list
of keys. -/
structure Sized (s : Step) : Prop where
  numbers : ∀ n ∈ s.numbers, IsInt64 n
  texts : ∀ t ∈ s.texts, IsInt64 t.length
  keys : IsInt64 s.keys.length

instance (s : Step) : Decidable s.Sized :=
  decidable_of_iff ((∀ n ∈ s.numbers, IsInt64 n) ∧ (∀ t ∈ s.texts, IsInt64 t.length) ∧
      IsInt64 s.keys.length)
    ⟨fun ⟨numbers, texts, keys⟩ => ⟨numbers, texts, keys⟩,
      fun ⟨numbers, texts, keys⟩ => ⟨numbers, texts, keys⟩⟩

/-- The fields that are written, with their numbers. -/
def entries (s : Step) : List (Nat × Writing) :=
  [(1, .int s.line), (2, .string s.verb), (3, .string s.raw)] ++
    (if s.text.isEmpty then [] else [(4, .string s.text)]) ++
    (if s.millis = 0 then [] else [(5, .int s.millis)]) ++
    (if s.count = 0 then [] else [(6, .int s.count)]) ++
    (if s.keys.isEmpty then [] else [(7, .array (s.keys.map .string))]) ++
    [(8, .int s.target)] ++
    (if s.skipsDelay then [(9, .yes)] else [])

/-- The field with a number, if it is written. -/
def entryAt (s : Step) : Nat → Option Writing
  | 1 => some (.int s.line)
  | 2 => some (.string s.verb)
  | 3 => some (.string s.raw)
  | 4 => if s.text.isEmpty then none else some (.string s.text)
  | 5 => if s.millis = 0 then none else some (.int s.millis)
  | 6 => if s.count = 0 then none else some (.int s.count)
  | 7 => if s.keys.isEmpty then none else some (.array (s.keys.map .string))
  | 8 => some (.int s.target)
  | 9 => if s.skipsDelay then some .yes else none
  | _ => none

def writing (s : Step) : Writing :=
  .map s.entries

theorem fields_eq (s : Step) : s.fields = s.entries.map fun e => (e.1, e.2.text) := by
  simp only [fields, entries, List.map_append, apply_ite (List.map _), List.map_cons,
    List.map_nil, Writing.int, Writing.string, Writing.yes, Writing.array, List.map_map]
  rfl

theorem text_writing (s : Step) : s.writing.text = s.encode := by
  rw [encode, fields_eq]
  rfl

theorem lookup_entries (s : Step) (n : Nat) : s.entries.lookup n = s.entryAt n := by
  simp only [entries, List.lookup_append, apply_ite (List.lookup n), List.lookup_cons,
    List.lookup_nil]
  match n with
  | 0 | 1 | 2 | 3 | 8 => simp [entryAt]
  | 4 | 5 | 6 | 7 | 9 => simp [entryAt]
  | n + 10 => simp [entryAt]

theorem length_entries (s : Step) : s.entries.length ≤ 9 := by
  simp only [entries, List.length_append, apply_ite List.length, List.length_cons,
    List.length_nil]
  repeat' split
  all_goals omega

/-- A field that is written is a number or a text of the step, its keys, or true. -/
theorem mem_entries {s : Step} {e : Nat × Writing} (h : e ∈ s.entries) :
    e.1 ≤ 9 ∧
      ((∃ n ∈ s.numbers, e.2 = .int n) ∨ (∃ t ∈ s.texts, e.2 = .string t) ∨
        e.2 = .array (s.keys.map .string) ∨ e.2 = .yes) := by
  simp only [entries, List.mem_append, List.mem_ite_nil_left, List.mem_ite_nil_right,
    List.mem_cons, List.not_mem_nil, or_false] at h
  rcases h with ((((((rfl | rfl | rfl) | ⟨-, rfl⟩) | ⟨-, rfl⟩) | ⟨-, rfl⟩) | ⟨-, rfl⟩) | rfl) |
    ⟨-, rfl⟩
  all_goals simp [numbers, texts]

theorem readAt_keys {s : Step} (h : s.Sized) (limit level : Nat) :
    (Writing.array (s.keys.map .string)).ReadAt limit (level + 1) := by
  apply Writing.readAt_array
  · intro w hw
    obtain ⟨t, ht, rfl⟩ := List.mem_map.mp hw
    have short : IsInt64 t.length := h.texts t (by simp [texts, ht])
    exact Writing.readAt_string short.lt_wordLimit
  · rw [List.length_map]
    exact h.keys.lt_wordLimit

theorem readAt_writing {s : Step} (h : s.Sized) (limit level : Nat) :
    s.writing.ReadAt limit (level + 2) := by
  apply Writing.readAt_map
  · intro e he
    obtain ⟨-, ⟨n, hn, he⟩ | ⟨t, ht, he⟩ | he | he⟩ := mem_entries he
    · obtain ⟨low, high⟩ := h.numbers n hn
      rw [he]
      apply Writing.readAt_int <;> simp only [wordLimit] <;> omega
    · rw [he]
      exact Writing.readAt_string (h.texts t ht).lt_wordLimit
    · rw [he]
      exact readAt_keys h limit level
    · rw [he]
      exact Writing.readAt_yes
  · intro e he
    have := (mem_entries he).1
    simp only [wordLimit]
    omega
  · have := s.length_entries
    simp only [wordLimit]
    omega

theorem count_writing_le_iff {s : Step} {limit : Nat} (h : 9 ≤ limit) :
    s.writing.count ≤ limit ↔ s.keys.length ≤ limit := by
  have keys : (Writing.array (s.keys.map .string)).count ≤ limit ↔ s.keys.length ≤ limit := by
    simp [Writing.array, greatest_le_iff, Writing.string]
  have short : s.entries.length ≤ limit := Nat.le_trans s.length_entries h
  simp only [writing, Writing.map, greatest_le_iff, short, true_and, List.forall_mem_map]
  constructor
  · intro all
    by_cases none : s.keys.isEmpty
    · simp [List.isEmpty_iff.mp none]
    · exact keys.mp (all (7, .array (s.keys.map .string)) (by simp [entries, none]))
  · intro few e he
    obtain ⟨-, ⟨n, -, he⟩ | ⟨t, -, he⟩ | he | he⟩ := mem_entries he
    · rw [he]
      exact Nat.zero_le _
    · rw [he]
      exact Nat.zero_le _
    · rw [he]
      exact keys.mpr few
    · rw [he]
      exact Nat.zero_le _

end Step

namespace Plan

/-- A plan of steps whose numbers and lengths are integers of 64 bits, and not more of them than
such an integer can count. -/
structure Sized (p : Plan) : Prop where
  length : IsInt64 p.steps.length
  steps : ∀ s ∈ p.steps, s.Sized

instance (p : Plan) : Decidable p.Sized :=
  decidable_of_iff (IsInt64 p.steps.length ∧ ∀ s ∈ p.steps, s.Sized)
    ⟨fun ⟨length, steps⟩ => ⟨length, steps⟩, fun ⟨length, steps⟩ => ⟨length, steps⟩⟩

def writing (p : Plan) : Writing :=
  .map [(1, .int planVersion), (2, .array (p.steps.map Step.writing))]

theorem text_writing (p : Plan) : p.writing.text = p.encode := by
  have steps : (p.steps.map Step.writing).map Writing.text = p.steps.map Step.encode := by
    simp [Step.text_writing]
  rw [encode, ← steps]
  rfl

theorem readAt_writing {p : Plan} (h : p.Sized) (limit level : Nat) :
    p.writing.ReadAt limit (level + 4) := by
  have steps : (Writing.array (p.steps.map Step.writing)).ReadAt limit (level + 3) := by
    apply Writing.readAt_array
    · intro w hw
      obtain ⟨s, hs, rfl⟩ := List.mem_map.mp hw
      exact Step.readAt_writing (h.steps s hs) limit level
    · rw [List.length_map]
      exact h.length.lt_wordLimit
  have version : (Writing.int planVersion).ReadAt limit (level + 3) :=
    Writing.readAt_int (by decide) (by decide)
  apply Writing.readAt_map
  · simp [steps, version]
  · simp [wordLimit]
  · simp [wordLimit]

theorem count_writing_le_iff {p : Plan} {limit : Nat} (h : 9 ≤ limit) :
    p.writing.count ≤ limit ↔
      p.steps.length ≤ limit ∧ ∀ s ∈ p.steps, s.keys.length ≤ limit := by
  have two : 2 ≤ limit := by omega
  simp [writing, Writing.map, Writing.array, Writing.int, greatest_le_iff, two,
    Step.count_writing_le_iff h]

end Plan

/-- A list read element by element, where every element is taken or refused. -/
theorem mapM_eq_ite {α β : Type} {read : β → Option α} {write : α → β} {ok : α → Prop}
    [DecidablePred ok] {xs : List α}
    (h : ∀ x ∈ xs, read (write x) = if ok x then some x else none) :
    (xs.map write).mapM read = if ∀ x ∈ xs, ok x then some xs else none := by
  induction xs with
  | nil => simp
  | cons x xs ih =>
      obtain ⟨first, others⟩ := List.forall_mem_cons.mp h
      rw [List.map_cons, List.mapM_cons, first, ih others]
      by_cases hx : ok x
      · by_cases hxs : ∀ x ∈ xs, ok x
        · rw [if_pos hx, if_pos hxs, if_pos (List.forall_mem_cons.mpr ⟨hx, hxs⟩)]
          rfl
        · rw [if_pos hx, if_neg hxs, if_neg fun all => hxs (List.forall_mem_cons.mp all).2]
          rfl
      · rw [if_neg hx, if_neg fun all => hx (List.forall_mem_cons.mp all).1]
        rfl

namespace Cbor.Item

theorem toInt?_ofInt {low high n : Int} (h : low ≤ n ∧ n ≤ high) :
    (ofInt n).toInt? low high = some n := by
  cases n with
  | ofNat n =>
      simp only [ofInt, toInt?, untagged]
      exact if_pos h
  | negSucc n =>
      have same : -1 - (n : Int) = .negSucc n := by omega
      simp only [ofInt, toInt?, untagged, same]
      exact if_pos h

theorem toText?_text (t : Text) :
    (Item.text [t]).toText? = if t.isValid then some t else none := by
  simp [toText?, untagged]

theorem toList?_texts (ts : List Text) :
    Item.toList? Item.toText? (.array (ts.map fun t => .text [t])) =
      if ∀ t ∈ ts, t.isValid then some ts else none := by
  simp only [toList?, untagged]
  exact mapM_eq_ite fun t _ => toText?_text t

end Cbor.Item

/-- The entries of a map that was written with numbers as keys. -/
def numbered (es : List (Nat × Writing)) : List (FieldKey × Item) :=
  es.map fun e => (.number e.1, e.2.item)

theorem entriesOf_map (es : List (Nat × Writing)) :
    entriesOf (Writing.map es).item = some (numbered es) := by
  simp only [entriesOf, Writing.map, Item.untagged, List.mapM_map]
  exact List.mapM_pure

theorem isField_number (n k : Nat) : FieldKey.isField n (.number k) = (k == n) := by
  rw [Bool.eq_iff_iff]
  simp only [FieldKey.isField, Bool.or_eq_true, beq_iff_eq, FieldKey.number.injEq, reduceCtorEq,
    or_false]
  exact Int.ofNat_inj

theorem fieldOf_numbered {α : Type} (es : List (Nat × Writing)) (n : Nat)
    (read : Item → Option α) (zero : α) :
    fieldOf (numbered es) n read zero =
      match es.lookup n with
      | some w => read w.item
      | none => some zero := by
  induction es with
  | nil => rfl
  | cons e es ih =>
      obtain ⟨k, w⟩ := e
      simp only [fieldOf, numbered, List.map_cons, List.find?_cons, isField_number,
        List.lookup_cons] at ih ⊢
      rw [Bool.beq_comm]
      cases n == k with
      | true => rfl
      | false => exact ih

/-- A field that is left out when it is zero reads as if it were never left out. -/
theorem read_unless_zero {α : Type} {absent ok : Prop} [Decidable absent] [Decidable ok]
    {w : Writing} {read : Item → Option α} {zero value : α}
    (present : read w.item = if ok then some value else none)
    (missing : absent → ok ∧ zero = value) :
    (match if absent then none else some w with
      | some w => read w.item
      | none => some zero) = if ok then some value else none := by
  by_cases h : absent
  · obtain ⟨hok, same⟩ := missing h
    rw [if_pos h, if_pos hok, same]
  · rw [if_neg h]
    exact present

theorem bind_some_if {α β : Type} {ok : Prop} [Decidable ok] (a : α) (f : α → Option β) :
    (if ok then some a else none).bind f = if ok then f a else none := by
  split <;> rfl

theorem if_if_none {α : Type} {p q : Prop} [Decidable p] [Decidable q] (x : Option α) :
    (if p then if q then x else none else none) = if p ∧ q then x else none := by
  by_cases p <;> simp [*]

namespace Step

/-- Whether every text of the step is well-formed. -/
def wellFormed (s : Step) : Bool :=
  s.texts.all Text.isValid

theorem wellFormed_iff (s : Step) :
    s.wellFormed ↔ s.verb.isValid ∧ s.raw.isValid ∧ s.text.isValid ∧ ∀ t ∈ s.keys, t.isValid := by
  simp only [wellFormed, texts, List.all_cons, Bool.and_eq_true, List.all_eq_true]

theorem wellFormed_iff_isUtf8 (s : Step) : s.wellFormed ↔ ∀ t ∈ s.texts, t.IsUtf8 := by
  simp only [wellFormed, List.all_eq_true, Text.isValid_iff]

theorem ofItem?_item {s : Step} (h : ∀ n ∈ s.numbers, IsInt64 n) :
    Step.ofItem? s.writing.item = if s.wellFormed then some s else none := by
  have int (n : Int) (hn : n ∈ s.numbers) :
      (Writing.int n).item.toInt64? = if True then some n else none :=
    Item.toInt?_ofInt (h n hn)
  have string (t : Text) : (Writing.string t).item.toText? = if t.isValid then some t else none :=
    Item.toText?_text t
  have strings : Item.toList? Item.toText? (Writing.array (s.keys.map .string)).item =
      if ∀ t ∈ s.keys, t.isValid then some s.keys else none := by
    simpa [Writing.array, Writing.string, Function.comp_def] using Item.toList?_texts s.keys
  have noText (empty : s.text.isEmpty = true) : s.text.isValid = true ∧ [] = s.text := by
    rw [List.isEmpty_iff.mp empty]
    exact ⟨rfl, rfl⟩
  have noKeys (empty : s.keys.isEmpty = true) : (∀ t ∈ s.keys, t.isValid) ∧ [] = s.keys := by
    rw [List.isEmpty_iff.mp empty]
    exact ⟨fun _ ht => absurd ht List.not_mem_nil, rfl⟩
  simp only [ofItem?, writing, entriesOf_map, fieldOf_numbered, lookup_entries, entryAt,
    Option.bind_eq_bind, Option.bind_some]
  rw [int s.line (by simp [numbers]), string, string, read_unless_zero (string s.text) noText,
    read_unless_zero (int s.millis (by simp [numbers])) fun zero => ⟨trivial, zero.symm⟩,
    read_unless_zero (int s.count (by simp [numbers])) fun zero => ⟨trivial, zero.symm⟩,
    read_unless_zero strings noKeys, int s.target (by simp [numbers])]
  have skips : (match if s.skipsDelay then some Writing.yes else none with
      | some w => w.item.toBool?
      | none => some false) = some s.skipsDelay := by
    cases s.skipsDelay <;> rfl
  simp only [bind_some_if, skips, Option.bind_some, if_true, wellFormed_iff, if_if_none]
  rfl

end Step

namespace Plan

theorem partsOfItem?_item {p : Plan} (h : ∀ s ∈ p.steps, ∀ n ∈ s.numbers, IsInt64 n) :
    Plan.partsOfItem? p.writing.item =
      if ∀ s ∈ p.steps, s.wellFormed then some ((planVersion : Int), p.steps) else none := by
  have steps : Item.toList? Step.ofItem? (Writing.array (p.steps.map Step.writing)).item =
      if ∀ s ∈ p.steps, s.wellFormed then some p.steps else none := by
    simp only [Writing.array, Item.toList?, Item.untagged, List.map_map]
    exact mapM_eq_ite fun s hs => Step.ofItem?_item (h s hs)
  have version : (Writing.int planVersion).item.toInt? 0 255 = some (planVersion : Int) := rfl
  simp only [partsOfItem?, writing, entriesOf_map, fieldOf_numbered, List.lookup_cons,
    Option.bind_eq_bind, Nat.reduceBEq, version, steps, Option.bind_some, bind_some_if]
  rfl

/-- The binary form of a plan is read back whole, or as malformed. -/
theorem decode_encode_eq {p : Plan} (h : p.Sized) :
    decode p.encode =
      if (∀ s ∈ p.steps, s.wellFormed) ∧ p.steps.length ≤ maxCount ∧
          ∀ s ∈ p.steps, s.keys.length ≤ maxCount
      then .ok { steps := p.steps } else .error .malformed := by
  have read : (readers maxCount maxLevels).item p.encode =
      if p.writing.count ≤ maxCount then some (p.writing.item, []) else none := by
    have := readAt_writing h maxCount 28 []
    rwa [List.append_nil, text_writing] at this
  have parts := partsOfItem?_item fun s hs => (h.steps s hs).numbers
  simp only [decode, Item.read, read, count_writing_le_iff (show 9 ≤ maxCount by decide)]
  by_cases counts : p.steps.length ≤ maxCount ∧ ∀ s ∈ p.steps, s.keys.length ≤ maxCount
  · by_cases texts : ∀ s ∈ p.steps, s.wellFormed
    · rw [if_pos counts, if_pos ⟨texts, counts⟩, Option.bind_some, parts, if_pos texts]
      rfl
    · rw [if_pos counts, if_neg (fun all => texts all.1), Option.bind_some, parts, if_neg texts]
  · rw [if_neg counts, if_neg (fun all => counts all.2)]
    rfl

end Plan

theorem Cbor.Item.ofInt_inj {m n : Int} (h : Item.ofInt m = Item.ofInt n) : m = n := by
  cases m <;> cases n <;> simp_all [Item.ofInt]

theorem eq_of_unless_zero {α : Type} {absent absent' : Prop} [Decidable absent]
    [Decidable absent'] {a b : α} {w w' : Writing} (zero : absent → absent' → a = b)
    (inj : w.item = w'.item → a = b)
    (h : (if absent then none else some w).map Writing.item =
      (if absent' then none else some w').map Writing.item) : a = b := by
  by_cases ha : absent <;> by_cases hb : absent'
  · exact zero ha hb
  · simp [ha, hb] at h
  · simp [ha, hb] at h
  · simp only [ha, hb, if_false, Option.map_some, Option.some.injEq] at h
    exact inj h

namespace Step

/-- The item of a step holds all of its fields. -/
theorem eq_of_item_eq {s s' : Step} (h : s.writing.item = s'.writing.item) : s = s' := by
  have same : numbered s.entries = numbered s'.entries := by
    have known : some (numbered s.entries) = some (numbered s'.entries) := by
      rw [← entriesOf_map, ← entriesOf_map]
      exact congrArg entriesOf h
    exact Option.some.inj known
  have entry (n : Nat) : (s.entryAt n).map Writing.item = (s'.entryAt n).map Writing.item := by
    have field := congrArg (fun es => fieldOf es n (fun item => some (some item)) none) same
    simp only [fieldOf_numbered, lookup_entries] at field
    cases hs : s.entryAt n <;> cases hs' : s'.entryAt n <;> simp_all
  have line : s.line = s'.line := Item.ofInt_inj (Option.some.inj (entry 1))
  have verb : s.verb = s'.verb := by simpa [entryAt, Writing.string] using entry 2
  have raw : s.raw = s'.raw := by simpa [entryAt, Writing.string] using entry 3
  have target : s.target = s'.target := Item.ofInt_inj (Option.some.inj (entry 8))
  have millis : s.millis = s'.millis :=
    eq_of_unless_zero (fun m n => m.trans n.symm) Item.ofInt_inj (entry 5)
  have count : s.count = s'.count :=
    eq_of_unless_zero (fun m n => m.trans n.symm) Item.ofInt_inj (entry 6)
  have text : s.text = s'.text := by
    refine eq_of_unless_zero (fun m n => ?_) (fun item => ?_) (entry 4)
    · rw [List.isEmpty_iff.mp m, List.isEmpty_iff.mp n]
    · simpa [Writing.string] using item
  have keys : s.keys = s'.keys := by
    refine eq_of_unless_zero (fun m n => ?_) (fun item => ?_) (entry 7)
    · rw [List.isEmpty_iff.mp m, List.isEmpty_iff.mp n]
    · simp only [Writing.array, Item.array.injEq, List.map_map] at item
      exact (List.map_inj_right fun t t' same => by simpa [Writing.string] using same).mp item
  have skips : s.skipsDelay = s'.skipsDelay := by
    have := entry 9
    cases hs : s.skipsDelay <;> cases hs' : s'.skipsDelay <;> simp_all [entryAt]
  cases s
  cases s'
  simp_all

end Step

namespace Plan

theorem steps_eq_of_item_eq {p q : Plan} (h : p.writing.item = q.writing.item) :
    p.steps = q.steps := by
  simp only [writing, Writing.map, Writing.array, List.map_cons, List.map_nil, List.map_map,
    Item.map.injEq, List.cons.injEq, Prod.mk.injEq, Item.array.injEq, and_true, true_and] at h
  exact (List.map_inj_right fun s s' same => Step.eq_of_item_eq same).mp h

theorem encode_congr {p q : Plan} (same : p.steps = q.steps) : p.encode = q.encode := by
  rw [encode, encode, same]

/-- Plans have the same binary form only if they have the same steps: with a limit that neither
of them exceeds, both items are what is read from it. -/
theorem steps_eq_of_encode_eq {p q : Plan} (hp : p.Sized) (hq : q.Sized)
    (h : p.encode = q.encode) : p.steps = q.steps := by
  have first := readAt_writing hp (max p.writing.count q.writing.count) 0 []
  have second := readAt_writing hq (max p.writing.count q.writing.count) 0 []
  rw [text_writing, if_pos (Nat.le_max_left _ _)] at first
  rw [text_writing, if_pos (Nat.le_max_right _ _), ← h, first] at second
  exact steps_eq_of_item_eq (Prod.mk.inj (Option.some.inj second)).1

/-- A plan that keeps to the limits of the reader is read back from its binary form, without its
source, if every text in it is well-formed, and is refused if one is not. -/
theorem decode_encode {p : Plan} (sized : p.Sized) (length : p.steps.length ≤ maxCount)
    (keys : ∀ s ∈ p.steps, s.keys.length ≤ maxCount) :
    ((∀ s ∈ p.steps, ∀ t ∈ s.texts, t.IsUtf8) →
      decode p.encode = .ok { source := [], steps := p.steps }) ∧
    ((∃ s ∈ p.steps, ∃ t ∈ s.texts, ¬ t.IsUtf8) → decode p.encode = .error .malformed) := by
  rw [decode_encode_eq sized]
  constructor
  · intro spelled
    have wellFormed : ∀ s ∈ p.steps, s.wellFormed :=
      fun s hs => s.wellFormed_iff_isUtf8.mpr (spelled s hs)
    exact if_pos ⟨wellFormed, length, keys⟩
  · rintro ⟨s, hs, t, ht, stray⟩
    exact if_neg fun all => stray (s.wellFormed_iff_isUtf8.mp (all.1 s hs) t ht)

/-- The least and the greatest number, fields that are left out and an empty key; and a text that
ends within a character. -/
theorem decode_encode_extremes :
    let extreme : Step :=
      { line := -9223372036854775808, verb := utf8 "press", raw := utf8 "é",
        millis := 9223372036854775807, keys := [utf8 "ctrl", []], target := -1, skipsDelay := true }
    decode (Plan.mk (utf8 "a") [extreme, {}]).encode = .ok { steps := [extreme, {}] } ∧
      decode (Plan.mk [] [{ raw := [0xC3] }]).encode = .error .malformed := by
  intro extreme
  have sized : Plan.Sized ⟨utf8 "a", [extreme, {}]⟩ := by decide
  have sized' : Plan.Sized ⟨[], [{ raw := [0xC3] }]⟩ := by decide
  exact ⟨(decode_encode sized (by decide) (by decide)).1 (by decide),
    (decode_encode sized' (by decide) (by decide)).2 (by decide)⟩

/-- The binary form tells plans apart by their steps and by nothing else, whatever bytes their
texts hold, and the digest is that of the binary form. -/
theorem encode_eq_iff {p q : Plan} (hp : p.Sized) (hq : q.Sized) :
    (p.encode = q.encode ↔ p.steps = q.steps) ∧
      p.digest = (blake2b256 p.encode).hex ∧ q.digest = (blake2b256 q.encode).hex := by
  exact ⟨⟨steps_eq_of_encode_eq hp hq, encode_congr⟩, rfl, rfl⟩

/-- An empty key is not the same as no key, and a stray byte in another text changes nothing. -/
theorem encode_eq_iff_keys :
    let bare : Step := { raw := [0xFF] }
    let pressed : Step := { raw := [0xFF], keys := [[]] }
    (Plan.mk (utf8 "a") [bare]).encode = (Plan.mk (utf8 "b") [bare]).encode ∧
      (Plan.mk (utf8 "a") [bare]).encode ≠ (Plan.mk (utf8 "a") [pressed]).encode := by
  intro bare pressed
  have sized : Plan.Sized ⟨utf8 "a", [bare]⟩ := by decide
  have renamed : Plan.Sized ⟨utf8 "b", [bare]⟩ := by decide
  have changed : Plan.Sized ⟨utf8 "a", [pressed]⟩ := by decide
  refine ⟨(encode_eq_iff sized renamed).1.mpr rfl, fun same => ?_⟩
  have steps : [bare] = [pressed] := (encode_eq_iff sized changed).1.mp same
  exact absurd steps (by decide)

end Plan
end KeyScript
