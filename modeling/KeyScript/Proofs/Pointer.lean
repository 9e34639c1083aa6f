import Mathlib.Logic.Relation
import KeyScript.Keyboard.Xdotool
import KeyScript.Proofs.FirstProblem
import KeyScript.Proofs.Grammar

/-!
The place of the pointer in what a program prints. Each part of the place is the
number of the last line that assigns one to it, wherever that line stands among
the others. So lines that assign to neither part may come and go, and a line for
one part may be moved past the lines for the other.
-/

namespace KeyScript

inductive Axis where
  | x
  | y

def Axis.name : Axis → Text
  | .x => utf8 "X"
  | .y => utf8 "Y"

/-- Nothing stands on the line but the name, an equals sign and a 64-bit number, with white space
around them. -/
def Assigns (axis : Axis) (line : Text) (n : Int) : Prop :=
  ∃ numeral, line.trim = axis.name ++ utf8 "=" ++ numeral ∧ numeral.Numeral n ∧ IsInt64 n

def Tells (axis : Axis) (line : Text) : Prop :=
  ∃ n, Assigns axis line n

def LastAssigned (axis : Axis) (lines : List Text) (n : Int) : Prop :=
  ∃ front line back, lines = front ++ line :: back ∧ Assigns axis line n ∧
    ∀ later ∈ back, ¬ Tells axis later

theorem readAssignment_eq_some_iff {axis : Axis} {line : Text} {n : Int} :
    readAssignment line = some (axis.name, n) ↔ Assigns axis line n := by
  have sign (numeral : Text) : axis.name ++ utf8 "=" ++ numeral = axis.name ++ 61 :: numeral := by
    rw [List.append_assoc]
    rfl
  simp only [Assigns, sign, ← Text.readDecimal_eq_ok_iff]
  constructor
  · intro h
    rw [readAssignment] at h
    split at h
    · rename_i name value parts
      have whole : line.trim = name ++ 61 :: value := by
        have := Text.eq_of_cut (congrArg Prod.snd parts)
        rwa [parts] at this
      split at h
      · rename_i read
        cases h
        exact ⟨value, whole, read⟩
      · cases h
    · cases h
  · rintro ⟨numeral, whole, read⟩
    have free : 61 ∉ axis.name := by cases axis <;> decide
    rw [readAssignment, whole, Text.cut_append free]
    simp only [read]

instance (axis : Axis) (line : Text) (n : Int) : Decidable (Assigns axis line n) :=
  decidable_of_iff _ readAssignment_eq_some_iff

theorem tells_iff {axis : Axis} {line : Text} :
    Tells axis line ↔ (readAssignment line).map Prod.fst = some axis.name := by
  simp only [Tells, ← readAssignment_eq_some_iff, Option.map_eq_some_iff, Prod.exists,
    exists_and_right, exists_eq_right]

instance (axis : Axis) (line : Text) : Decidable (Tells axis line) :=
  decidable_of_iff _ tells_iff.symm

namespace Sighting

variable {axis : Axis} {line : Text} {lines : List Text} {n : Int}

def along (s : Sighting) : Axis → Option Int
  | .x => s.x
  | .y => s.y

theorem ext_along {s t : Sighting} (h : ∀ axis, s.along axis = t.along axis) : s = t := by
  obtain ⟨x, y⟩ := s
  obtain ⟨x', y'⟩ := t
  obtain rfl : x = x' := h .x
  obtain rfl : y = y' := h .y
  rfl

theorem place_eq_some_iff {s : Sighting} {x y : Int} :
    s.place = some (x, y) ↔ s.along .x = some x ∧ s.along .y = some y := by
  obtain ⟨_ | _, _ | _⟩ := s <;> simp [place, along]

theorem along_read_of_assigns (h : Assigns axis line n) (s : Sighting) :
    (s.read line).along axis = some n := by
  rw [read, readAssignment_eq_some_iff.mpr h]
  cases axis <;> rfl

theorem along_read_of_not_tells (h : ¬ Tells axis line) (s : Sighting) :
    (s.read line).along axis = s.along axis := by
  cases assignment : readAssignment line with
  | none => simp only [read, assignment]
  | some found =>
      obtain ⟨name, n⟩ := found
      have other : name ≠ axis.name := by
        rintro rfl
        exact h ⟨n, readAssignment_eq_some_iff.mp assignment⟩
      simp only [read, assignment]
      cases axis with
      | x | y =>
          rw [Axis.name] at other
          rw [if_neg other]
          split <;> rfl

theorem along_foldl_of_not_tells (h : ∀ line ∈ lines, ¬ Tells axis line) (s : Sighting) :
    (lines.foldl read s).along axis = s.along axis := by
  induction lines generalizing s with
  | nil => rfl
  | cons line rest ih =>
      obtain ⟨first, others⟩ := List.forall_mem_cons.mp h
      rw [List.foldl_cons, ih others, along_read_of_not_tells first]

theorem along_foldl_of_last (h : LastAssigned axis lines n) (s : Sighting) :
    (lines.foldl read s).along axis = some n := by
  obtain ⟨front, line, back, rfl, assigned, silent⟩ := h
  rw [List.foldl_append, List.foldl_cons, along_foldl_of_not_tells silent,
    along_read_of_assigns assigned]

end Sighting

theorem exists_lastAssigned_iff {axis : Axis} {lines : List Text} :
    (∃ n, LastAssigned axis lines n) ↔ ∃ line ∈ lines, Tells axis line := by
  constructor
  · rintro ⟨n, front, line, back, rfl, assigned, -⟩
    exact ⟨line, by simp, n, assigned⟩
  · rintro ⟨line, hl, tells⟩
    -- The last line is the first one from behind.
    obtain ⟨back, last, front, reversed, silent, n, assigned⟩ :=
      exists_first ⟨line, List.mem_reverse.mpr hl, tells⟩
    refine ⟨n, front.reverse, last, back.reverse, ?_, assigned, ?_⟩
    · rw [← List.reverse_reverse lines, reversed]
      simp
    · exact fun later member => silent later (List.mem_reverse.mp member)

theorem Sighting.along_foldl_eq_some_iff {axis : Axis} {lines : List Text} {n : Int} :
    (lines.foldl Sighting.read {}).along axis = some n ↔ LastAssigned axis lines n := by
  refine ⟨fun known => ?_, fun last => along_foldl_of_last last {}⟩
  by_cases told : ∃ line ∈ lines, Tells axis line
  · obtain ⟨m, last⟩ := exists_lastAssigned_iff.mpr told
    rw [along_foldl_of_last last] at known
    cases known
    exact last
  · have silent : ∀ line ∈ lines, ¬ Tells axis line := by simpa using told
    rw [along_foldl_of_not_tells silent] at known
    cases axis <;> cases known

/-- One change to the lines: one that tells nothing of the place is put in or taken out, or two
neighbours change places that do not tell of the same part of it. -/
inductive Rearranges : List Text → List Text → Prop
  | insert {line : Text} (other : ∀ axis, ¬ Tells axis line) (front back : List Text) :
      Rearranges (front ++ back) (front ++ line :: back)
  | delete {line : Text} (other : ∀ axis, ¬ Tells axis line) (front back : List Text) :
      Rearranges (front ++ line :: back) (front ++ back)
  | swap {line line' : Text} (apart : ∀ axis, ¬ (Tells axis line ∧ Tells axis line'))
      (front back : List Text) :
      Rearranges (front ++ line :: line' :: back) (front ++ line' :: line :: back)

namespace Sighting

theorem read_of_not_tells {line : Text} (h : ∀ axis, ¬ Tells axis line) (s : Sighting) :
    s.read line = s :=
  ext_along fun axis => along_read_of_not_tells (h axis) s

theorem read_read_comm {line line' : Text}
    (apart : ∀ axis, ¬ (Tells axis line ∧ Tells axis line')) (s : Sighting) :
    (s.read line).read line' = (s.read line').read line := by
  apply ext_along
  intro axis
  by_cases tells : Tells axis line
  · have silent : ¬ Tells axis line' := fun tells' => apart axis ⟨tells, tells'⟩
    obtain ⟨n, assigned⟩ := tells
    rw [along_read_of_not_tells silent, along_read_of_assigns assigned,
      along_read_of_assigns assigned]
  · rw [along_read_of_not_tells tells]
    by_cases tells' : Tells axis line'
    · obtain ⟨n, assigned⟩ := tells'
      rw [along_read_of_assigns assigned, along_read_of_assigns assigned]
    · rw [along_read_of_not_tells tells', along_read_of_not_tells tells',
        along_read_of_not_tells tells]

theorem foldl_rearranges {lines lines' : List Text} (h : Rearranges lines lines')
    (s : Sighting) : lines'.foldl read s = lines.foldl read s := by
  cases h with
  | insert other front back | delete other front back =>
      simp only [List.foldl_append, List.foldl_cons, read_of_not_tells other]
  | swap apart front back =>
      simp only [List.foldl_append, List.foldl_cons, read_read_comm apart]

theorem foldl_rearranged {lines lines' : List Text}
    (h : Relation.ReflTransGen Rearranges lines lines') (s : Sighting) :
    lines'.foldl read s = lines.foldl read s := by
  induction h with
  | refl => rfl
  | tail _ last ih => rw [foldl_rearranges last, ih]

theorem read_dropReturn (s : Sighting) (line : Text) : s.read (dropReturn line) = s.read line := by
  simp only [read, readAssignment, Text.trim_dropReturn]

end Sighting

theorem readPointer_of_splits {printed : Text} {lines : List Text} (splits : Splits printed lines)
    (short : ∀ line ∈ lines, line.length < 65536) :
    readPointer printed = (lines.foldl Sighting.read {}).place := by
  rw [splits.eq] at short ⊢
  have whole : linesWithin pointerLineLimit printed = (physicalLines printed).map dropReturn :=
    Text.linesWithin_of_short short
  simp only [readPointer, whole, List.foldl_map, Sighting.read_dropReturn]

/-- Of a text whose lines are all shorter than 65536 bytes, the place of the pointer is read exactly
if some line assigns a 64-bit number to `X` and some line one to `Y`, and it is made of the last
such numbers. It stays what it is when other lines are put in, taken out or moved, and when lines
for `X` are moved past lines for `Y`. -/
theorem pointer_is_last_assigned (printed : Text) :
    (∃ lines, Splits printed lines) ∧
    ∀ lines, Splits printed lines → (∀ line ∈ lines, line.length < 65536) →
      ((∃ x y, readPointer printed = some (x, y)) ↔
        (∃ line ∈ lines, Tells .x line) ∧ ∃ line ∈ lines, Tells .y line) ∧
      (∀ x y, readPointer printed = some (x, y) ↔
        LastAssigned .x lines x ∧ LastAssigned .y lines y) ∧
      ∀ printed' lines', Splits printed' lines' → (∀ line ∈ lines', line.length < 65536) →
        Relation.ReflTransGen Rearranges lines lines' →
        readPointer printed' = readPointer printed := by
  refine ⟨⟨_, splits_physicalLines printed⟩, ?_⟩
  intro lines splits short
  have located (x y : Int) : readPointer printed = some (x, y) ↔
      LastAssigned .x lines x ∧ LastAssigned .y lines y := by
    rw [readPointer_of_splits splits short, Sighting.place_eq_some_iff,
      Sighting.along_foldl_eq_some_iff, Sighting.along_foldl_eq_some_iff]
  refine ⟨?_, located, ?_⟩
  · simp only [located, exists_and_left, exists_and_right, exists_lastAssigned_iff]
  · intro printed' lines' splits' short' rearranged
    rw [readPointer_of_splits splits short, readPointer_of_splits splits' short',
      Sighting.foldl_rearranged rearranged]

/-- A number that needs more than 64 bits and an empty one do not count, and neither does the number
of a window. -/
theorem pointer_is_last_assigned_moved :
    readPointer (utf8 "X=1\nY=+5\r\nWINDOW=7\n\tX=-03 \nX=9223372036854775808\n") =
        some (-3, 5) ∧
      readPointer (utf8 "Y=\nX=1\n\tX=-03 \nY=+5\r\nX=9223372036854775808") = some (-3, 5) := by
  let one := utf8 "X=1"
  let five := utf8 "Y=+5\r"
  let window := utf8 "WINDOW=7"
  let three := utf8 "\tX=-03 "
  let large := utf8 "X=9223372036854775808"
  have splits := splits_physicalLines
    (utf8 "X=1\nY=+5\r\nWINDOW=7\n\tX=-03 \nX=9223372036854775808\n")
  have splits' := splits_physicalLines
    (utf8 "Y=\nX=1\n\tX=-03 \nY=+5\r\nX=9223372036854775808")
  rw [show physicalLines _ = [one, five, window, three, large] by decide +kernel] at splits
  rw [show physicalLines _ = [utf8 "Y=", one, three, five, large] by decide +kernel] at splits'
  have taken : Rearranges [one, five, window, three, large] [one, five, three, large] := by
    refine .delete ?_ [one, five] [three, large]
    intro axis
    cases axis <;> decide +kernel
  have moved : Rearranges [one, five, three, large] [one, three, five, large] := by
    refine .swap ?_ [one] [large]
    intro axis
    cases axis <;> decide +kernel
  have put : Rearranges [one, three, five, large] [utf8 "Y=", one, three, five, large] := by
    refine .insert ?_ [] [one, three, five, large]
    intro axis
    cases axis <;> decide +kernel
  obtain ⟨-, located, kept⟩ := (pointer_is_last_assigned _).2 _ splits (by decide +kernel)
  have found := (located (-3) 5).mpr
    ⟨⟨[one, five, window], three, [large], rfl, by decide +kernel, by decide +kernel⟩,
      ⟨[one], five, [window, three, large], rfl, by decide +kernel, by decide +kernel⟩⟩
  have same := kept _ _ splits' (by decide +kernel)
    (.tail (.tail (.single taken) moved) put)
  exact ⟨found, same.trans found⟩

end KeyScript
