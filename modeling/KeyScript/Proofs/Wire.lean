import KeyScript.Cbor.Write

/-!
Reading what was written. A head gives its kind and number back, so an item in
its shortest form is read as that item wherever it stands. The one thing that
stops a reader is its limit on the counts of arrays and maps, and it is stopped
by the greatest count in a form whatever else the form holds.
-/

namespace KeyScript
namespace Cbor

/-- The numbers from here on do not fit into a head. -/
def wordLimit : Nat := 18446744073709551616

theorem length_bytesOfNat (size n : Nat) : (bytesOfNat size n).length = size := by
  induction size generalizing n with
  | zero => rfl
  | succ size ih => simp [bytesOfNat, ih]

theorem natOfBytes_append (t : Text) (b : UInt8) :
    natOfBytes (t ++ [b]) = natOfBytes t * 256 + b.toNat := by
  simp [natOfBytes, List.foldl_append]

theorem natOfBytes_bytesOfNat (size n : Nat) (h : n < Nat.pow 256 size) :
    natOfBytes (bytesOfNat size n) = n := by
  induction size generalizing n with
  | zero =>
      have zero : n = 0 := Nat.lt_one_iff.mp h
      rw [zero]
      rfl
  | succ size ih =>
      have high : n / 256 < Nat.pow 256 size := Nat.div_lt_of_lt_mul (Nat.mul_comm _ _ ▸ h)
      have low : (n % 256).toUInt8.toNat = n % 256 := by simp
      rw [bytesOfNat, natOfBytes_append, ih _ high, low]
      exact Nat.div_add_mod' n 256

theorem takeBytes_append {n : Nat} {t : Text} (h : t.length = n) (rest : Text) :
    takeBytes n (t ++ rest) = some (t, rest) := by
  simp [takeBytes, List.take_left' h, List.drop_left' h, h]

theorem toNat_headByte (kind : Kind) {low : Nat} (h : low < 32) :
    (kind.bits + low).toUInt8.toNat = kind.bits + low := by
  have : kind.bits + low < 256 := by
    cases kind <;> simp only [Kind.bits] <;> omega
  simpa using this

theorem ofByte_headByte (kind : Kind) {low : Nat} (h : low < 32) :
    Kind.ofByte (kind.bits + low).toUInt8 = kind := by
  have top : (kind.bits + low) / 32 = kind.bits / 32 := by
    cases kind <;> simp only [Kind.bits] <;> omega
  rw [Kind.ofByte, toNat_headByte kind h, top]
  cases kind <;> rfl

/-- How the shortest head holds its number. -/
def shortestWidth (n : Nat) : Width :=
  if n < 24 then .inside
  else if n < 256 then .behind 1
  else if n < 65536 then .behind 2
  else if n < 4294967296 then .behind 4
  else .behind 8

theorem shortestWidth_ne_missing (n : Nat) : shortestWidth n ≠ .missing := by
  simp only [shortestWidth]
  repeat' split
  all_goals simp

theorem readHead_inside (kind : Kind) {n : Nat} (h : n < 24) (rest : Text) :
    readHead ((kind.bits + n).toUInt8 :: rest) = some (⟨kind, .inside, n⟩, rest) := by
  have low : (kind.bits + n) % 32 = n := by
    cases kind <;> simp only [Kind.bits] <;> omega
  simp only [readHead, toNat_headByte kind (show n < 32 by omega),
    ofByte_headByte kind (show n < 32 by omega), low, h, ite_true]

theorem readHead_behind (kind : Kind) (low : Nat) {n : Nat} (hlow : 24 ≤ low) (hlow' : low < 28)
    (h : n < Nat.pow 256 (Nat.pow 2 (low - 24))) (rest : Text) :
    readHead ((kind.bits + low).toUInt8 :: (bytesOfNat (Nat.pow 2 (low - 24)) n ++ rest)) =
      some (⟨kind, .behind (Nat.pow 2 (low - 24)), n⟩, rest) := by
  have same : (kind.bits + low) % 32 = low := by
    cases kind <;> simp only [Kind.bits] <;> omega
  have notInside : ¬ low < 24 := by omega
  simp only [readHead, toNat_headByte kind (show low < 32 by omega),
    ofByte_headByte kind (show low < 32 by omega), same, notInside, hlow', ite_true, ite_false,
    takeBytes_append (length_bytesOfNat _ n), natOfBytes_bytesOfNat _ n h]

theorem readHead_writeHead (kind : Kind) {n : Nat} (h : n < wordLimit) (rest : Text) :
    readHead (writeHead kind n ++ rest) = some (⟨kind, shortestWidth n, n⟩, rest) := by
  simp only [writeHead, shortestWidth]
  repeat' split
  · exact readHead_inside kind ‹_› rest
  · exact readHead_behind kind 24 (by decide) (by decide) ‹_› rest
  · exact readHead_behind kind 25 (by decide) (by decide) ‹_› rest
  · exact readHead_behind kind 26 (by decide) (by decide) ‹_› rest
  · exact readHead_behind kind 27 (by decide) (by decide) h rest

/-- The reader of the items inside another one, with a number of levels left. -/
def innerReader (limit : Nat) : Nat → Option Reader
  | 0 => none
  | level + 1 => some (readers limit level).item

/-- Behind the head of an item that is no tag, any reader reads its body. -/
theorem item_writeHead (limit level : Nat) (kind : Kind) (plain : kind ≠ .tag) {n : Nat}
    (h : n < wordLimit) (rest : Text) :
    (readers limit level).item (writeHead kind n ++ rest) =
      readBody limit (innerReader limit level) ⟨kind, shortestWidth n, n⟩ rest := by
  cases level <;>
    simp only [readers, Readers.above, readItem, readHead_writeHead kind h, plain, ite_false,
      innerReader, Option.map_none, Option.map_some]

/-- An integer as an item. -/
def Item.ofInt : Int → Item
  | .ofNat n => .unsigned n
  | .negSucc n => .negative n

/-- The greatest of some counts. -/
def greatest (first : Nat) (counts : List Nat) : Nat :=
  counts.foldr max first

theorem greatest_le_iff {first limit : Nat} {counts : List Nat} :
    greatest first counts ≤ limit ↔ first ≤ limit ∧ ∀ n ∈ counts, n ≤ limit := by
  induction counts with
  | nil => simp [greatest]
  | cons n rest ih =>
      simp only [greatest, List.foldr_cons, Nat.max_le, List.forall_mem_cons] at ih ⊢
      rw [ih]
      exact and_left_comm

/-- The shortest form of an item, with the greatest count of an array or a map in it. -/
structure Writing where
  text : Text
  item : Item
  count : Nat

namespace Writing

def int (n : Int) : Writing :=
  ⟨writeInt n, .ofInt n, 0⟩

def string (t : Text) : Writing :=
  ⟨writeText t, .text [t], 0⟩

def yes : Writing :=
  ⟨writeTrue, .simple 21, 0⟩

def array (ws : List Writing) : Writing :=
  ⟨writeArray (ws.map text), .array (ws.map item), greatest ws.length (ws.map count)⟩

def map (es : List (Nat × Writing)) : Writing :=
  ⟨writeMap (es.map fun e => (e.1, e.2.text)), .map (es.map fun e => (.unsigned e.1, e.2.item)),
    greatest es.length (es.map fun e => e.2.count)⟩

/-- With so many levels left, the form is read as its item if no count in it is over the limit. -/
def ReadAt (limit level : Nat) (w : Writing) : Prop :=
  ∀ rest, (readers limit level).item (w.text ++ rest) =
    if w.count ≤ limit then some (w.item, rest) else none

theorem readAt_int {limit level : Nat} {n : Int} (low : -(wordLimit : Int) ≤ n)
    (high : n < wordLimit) : (int n).ReadAt limit level := by
  intro rest
  cases n with
  | ofNat n =>
      have h : n < wordLimit := Int.ofNat_lt.mp high
      simp [int, writeInt, item_writeHead limit level .unsigned (by decide) h, readBody,
        shortestWidth_ne_missing, Item.ofInt]
  | negSucc n =>
      have h : n < wordLimit := by
        simp only [wordLimit] at low ⊢
        omega
      simp [int, writeInt, item_writeHead limit level .negative (by decide) h, readBody,
        shortestWidth_ne_missing, Item.ofInt]

theorem readAt_string {limit level : Nat} {t : Text} (h : t.length < wordLimit) :
    (string t).ReadAt limit level := by
  intro rest
  simp [string, writeText, item_writeHead limit level .text (by decide) h, readBody, readString,
    shortestWidth_ne_missing, takeBytes_append]

theorem readAt_yes {limit level : Nat} : yes.ReadAt limit level := by
  intro rest
  have h : 21 < wordLimit := by decide
  have head : writeTrue = writeHead .other 21 := rfl
  have width : shortestWidth 21 = .inside := rfl
  simp [yes, head, item_writeHead limit level .other (by decide) h, readBody, width]

/-- Forms one after another are read as their items one after another. -/
theorem readMany_texts {limit level : Nat} {ws : List Writing}
    (h : ∀ w ∈ ws, w.ReadAt limit level) (found : Array Item) (rest : Text) :
    readMany (readers limit level).item ws.length found ((ws.map text).flatten ++ rest) =
      if ∀ w ∈ ws, w.count ≤ limit then some (found.toList ++ ws.map item, rest) else none := by
  induction ws generalizing found with
  | nil => simp [readMany]
  | cons w ws ih =>
      obtain ⟨first, others⟩ := List.forall_mem_cons.mp h
      simp only [List.map_cons, List.flatten_cons, List.append_assoc, List.length_cons, readMany,
        first _]
      by_cases fits : w.count ≤ limit
      · simp [fits, ih others]
      · simp [fits]

theorem readItems_texts {limit level : Nat} {ws : List Writing}
    (h : ∀ w ∈ ws, w.ReadAt limit level) (kind : Kind) {each n : Nat}
    (length : ws.length = each * n) (rest : Text) :
    readItems limit (innerReader limit (level + 1)) each ⟨kind, shortestWidth n, n⟩
        ((ws.map text).flatten ++ rest) =
      if n ≤ limit ∧ ∀ w ∈ ws, w.count ≤ limit then some (ws.map item, rest) else none := by
  simp only [readItems, innerReader, shortestWidth_ne_missing, ite_false, ← length,
    readMany_texts h]
  by_cases fits : n ≤ limit
  · simp [fits, Nat.not_lt.mpr fits]
  · simp [fits, Nat.lt_of_not_le fits]

theorem readAt_array {limit level : Nat} {ws : List Writing}
    (h : ∀ w ∈ ws, w.ReadAt limit level) (length : ws.length < wordLimit) :
    (array ws).ReadAt limit (level + 1) := by
  intro rest
  simp only [array, writeArray, List.length_map, List.append_assoc,
    item_writeHead limit (level + 1) .array (by decide) length, readBody,
    readItems_texts h .array (Nat.one_mul _).symm, greatest_le_iff, List.forall_mem_map]
  by_cases fits : ws.length ≤ limit ∧ ∀ w ∈ ws, w.count ≤ limit
  · rw [if_pos fits, if_pos fits]
  · rw [if_neg fits, if_neg fits]

theorem pairUp_flatMap {α : Type} (key value : α → Item) (es : List α)
    (found : Array (Item × Item)) :
    pairUp found (es.flatMap fun e => [key e, value e]) =
      some (found.toList ++ es.map fun e => (key e, value e)) := by
  induction es generalizing found with
  | nil => simp [pairUp]
  | cons e es ih => simp [pairUp, ih]

/-- The forms of the keys and the values of a map, in the order in which they stand. -/
def keysAndValues (es : List (Nat × Writing)) : List Writing :=
  es.flatMap fun e => [int e.1, e.2]

theorem length_keysAndValues (es : List (Nat × Writing)) :
    (keysAndValues es).length = 2 * es.length := by
  induction es with
  | nil => rfl
  | cons e es ih =>
      simp only [keysAndValues, List.flatMap_cons, List.length_append, List.length_cons,
        List.length_nil] at ih ⊢
      omega

theorem text_map (es : List (Nat × Writing)) :
    (map es).text = writeHead .map es.length ++ ((keysAndValues es).map text).flatten := by
  have body : (es.map fun e => (e.1, e.2.text)).flatMap
      (fun e => writeHead .unsigned e.1 ++ e.2) = ((keysAndValues es).map text).flatten := by
    induction es with
    | nil => rfl
    | cons e es ih =>
        simp only [keysAndValues, List.map_cons, List.flatMap_cons, List.map_append,
          List.flatten_append] at ih ⊢
        rw [ih]
        simp [int, writeInt]
  simp only [map, writeMap, List.length_map]
  rw [← body]

theorem items_keysAndValues (es : List (Nat × Writing)) :
    (keysAndValues es).map item = es.flatMap fun e => [.unsigned e.1, e.2.item] := by
  simp only [keysAndValues, List.map_flatMap]
  rfl

theorem forall_keysAndValues {es : List (Nat × Writing)} {P : Writing → Prop}
    (keys : ∀ e ∈ es, P (int e.1)) : (∀ w ∈ keysAndValues es, P w) ↔ ∀ e ∈ es, P e.2 := by
  simp only [keysAndValues, List.mem_flatMap]
  constructor
  · intro h e he
    exact h e.2 ⟨e, he, by simp⟩
  · rintro h w ⟨e, he, hw⟩
    simp only [List.mem_cons, List.not_mem_nil, or_false] at hw
    rcases hw with rfl | rfl
    · exact keys e he
    · exact h e he

theorem readAt_map {limit level : Nat} {es : List (Nat × Writing)}
    (h : ∀ e ∈ es, e.2.ReadAt limit level) (keys : ∀ e ∈ es, e.1 < wordLimit)
    (length : es.length < wordLimit) : (map es).ReadAt limit (level + 1) := by
  intro rest
  have read : ∀ w ∈ keysAndValues es, w.ReadAt limit level := by
    refine (forall_keysAndValues fun e he => ?_).mpr h
    have := keys e he
    exact readAt_int (by omega) (by omega)
  have small : (∀ w ∈ keysAndValues es, w.count ≤ limit) ↔ ∀ e ∈ es, e.2.count ≤ limit :=
    forall_keysAndValues (P := fun w => w.count ≤ limit) fun _ _ => Nat.zero_le _
  simp only [text_map, List.append_assoc, item_writeHead limit (level + 1) .map (by decide) length,
    readBody, readItems_texts read .map (length_keysAndValues es), small]
  simp only [map, greatest_le_iff, List.forall_mem_map]
  by_cases fits : es.length ≤ limit ∧ ∀ e ∈ es, e.2.count ≤ limit
  · simp only [if_pos fits, items_keysAndValues, pairUp_flatMap, List.nil_append]
  · simp only [if_neg fits]

end Writing

end Cbor
end KeyScript
