import Mathlib.Data.List.Zip
import KeyScript.Plan.Diff

/-!
Differences as patches. The differences between two plans hold all that is needed
to get from what people read of the one to what they read of the other, and read
the other way round they lead back. The positions beyond the shorter plan are
added or removed, never both.
-/

namespace KeyScript

/-- The change read the other way round. -/
def Change.reverse (c : Change) : Change :=
  ⟨c.position, c.new, c.old⟩

namespace Diff

def reverse (d : Diff) : Diff where
  added := d.removed.map Change.reverse
  removed := d.added.map Change.reverse
  modified := d.modified.map Change.reverse

/-- Puts what is new at the position of every change; positions count from 1. -/
def replaceAt (changes : List Change) (lines : List Text) : List Text :=
  changes.foldl (fun lines c => lines.set (c.position - 1) c.new) lines

/-- Leaves out what stands at the positions. -/
def deleteAt (positions : List Nat) (lines : List Text) : List Text :=
  ((lines.zipIdx 1).filter fun line => line.2 ∉ positions).map Prod.fst

/-- Makes the changes: replaces what was modified, deletes what was removed and appends what was
added. -/
def patch (d : Diff) (lines : List Text) : List Text :=
  deleteAt (d.removed.map Change.position) (replaceAt d.modified lines) ++ d.added.map Change.new

/-- Replacing reaches `target` when every change writes what `target` has at its position and
every position that is different is written. -/
theorem replaceAt_eq {changes : List Change} {lines target : List Text}
    (length : lines.length = target.length)
    (written : ∀ c ∈ changes, target[c.position - 1]? = some c.new)
    (covered : ∀ i, lines[i]? ≠ target[i]? → ∃ c ∈ changes, c.position - 1 = i) :
    replaceAt changes lines = target := by
  induction changes generalizing lines with
  | nil =>
      apply List.ext_getElem?
      intro i
      by_contra differ
      obtain ⟨c, hc, -⟩ := covered i differ
      cases hc
  | cons c rest ih =>
      obtain ⟨here, later⟩ := List.forall_mem_cons.mp written
      apply ih
      · rw [List.length_set, length]
      · exact later
      -- Writing at `c` can only make a position agree, so what still differs is written later.
      · intro i differ
        rw [List.getElem?_set] at differ
        split at differ
        · rename_i same
          subst same
          split at differ
          · exact absurd here.symm differ
          · rename_i beyond
            rw [List.getElem?_eq_none (length ▸ Nat.not_lt.mp beyond)] at here
            cases here
        · rename_i other
          obtain ⟨c', hc, place⟩ := covered i differ
          cases List.mem_cons.mp hc with
          | inl first => exact absurd (first ▸ place) other
          | inr found => exact ⟨c', found, place⟩

theorem deleteAt_eq_take {positions : List Nat} {lines : List Text} {n : Nat}
    (kept : ∀ p ∈ positions, n < p)
    (deleted : ∀ p, n < p → p ≤ lines.length → p ∈ positions) :
    deleteAt positions lines = lines.take n := by
  have front : ((lines.take n).zipIdx 1).filter (fun line => line.2 ∉ positions) =
      (lines.take n).zipIdx 1 := by
    rw [List.filter_eq_self]
    rintro ⟨line, p⟩ place
    have low := List.snd_lt_of_mem_zipIdx place
    have short := List.length_take_le n lines
    rw [decide_eq_true_eq]
    intro found
    have high := kept p found
    omega
  have back : ((lines.drop n).zipIdx (1 + (lines.take n).length)).filter
      (fun line => line.2 ∉ positions) = [] := by
    rw [List.filter_eq_nil_iff]
    rintro ⟨line, p⟩ place
    have low := List.le_snd_of_mem_zipIdx place
    have high := List.snd_lt_of_mem_zipIdx place
    simp only [List.length_take, List.length_drop] at low high
    rw [decide_eq_true_eq, not_not]
    apply deleted
    · omega
    · omega
  rw [deleteAt, ← List.take_append_drop n lines, List.zipIdx_append, List.filter_append,
    List.take_append_drop, front, back, List.append_nil, List.zipIdx_map_fst]

section

variable (old new : List Text)

theorem mem_modifiedBetween (c : Change) :
    c ∈ modifiedBetween old new ↔
      1 ≤ c.position ∧ old[c.position - 1]? = some c.old ∧ new[c.position - 1]? = some c.new ∧
        c.old ≠ c.new := by
  rw [modifiedBetween, List.mem_filterMap]
  constructor
  · rintro ⟨⟨⟨before, after⟩, position⟩, place, found⟩
    rw [List.mk_mem_zipIdx_iff_le_and_getElem?_sub, List.getElem?_zip_eq_some] at place
    simp only [Option.ite_none_left_eq_some, Option.some.injEq] at found
    obtain ⟨differ, rfl⟩ := found
    exact ⟨place.1, place.2.1, place.2.2, differ⟩
  · rintro ⟨counted, before, after, differ⟩
    refine ⟨((c.old, c.new), c.position), ?_, by simp [differ]⟩
    rw [List.mk_mem_zipIdx_iff_le_and_getElem?_sub, List.getElem?_zip_eq_some]
    exact ⟨counted, before, after⟩

theorem modifiedBetween_increasing :
    ((modifiedBetween old new).map Change.position).Pairwise (· < ·) := by
  have counted : ((old.zip new).zipIdx 1).Pairwise fun e e' => e.2 < e'.2 := by
    rw [← List.pairwise_map (f := Prod.snd), List.zipIdx_map_snd]
    exact List.pairwise_lt_range'
  rw [List.pairwise_map, modifiedBetween, List.pairwise_filterMap]
  apply counted.imp
  rintro ⟨⟨before, after⟩, position⟩ ⟨⟨before', after'⟩, position'⟩ less c found c' found'
  simp only [Option.ite_none_left_eq_some, Option.some.injEq] at found found'
  rw [← found.2, ← found'.2]
  exact less

theorem positions_added : (between old new).added.map Change.position =
    List.range' (old.length + 1) (new.length - old.length) := by
  simp only [between, List.map_map]
  rw [← List.length_drop, ← List.zipIdx_map_snd (old.length + 1) (new.drop old.length)]
  rfl

theorem between_reverse : between new old = (between old new).reverse := by
  have modified : modifiedBetween new old = (modifiedBetween old new).map Change.reverse := by
    rw [modifiedBetween, modifiedBetween, ← List.zip_swap, List.zipIdx_map, List.filterMap_map,
      List.map_filterMap]
    congr 1
    apply funext
    rintro ⟨⟨before, after⟩, position⟩
    simp only [Function.comp_apply, Prod.map_apply, Prod.swap_prod_mk]
    by_cases same : before = after
    · simp [same]
    · simp [same, Ne.symm same, Change.reverse]
  simp only [between, reverse, modified, List.map_map]
  rfl

theorem positions_removed : (between old new).removed.map Change.position =
    List.range' (new.length + 1) (old.length - new.length) := by
  rw [between_reverse new old, ← positions_added new old, reverse, List.map_map]
  rfl

theorem texts_added : (between old new).added.map Change.new = new.drop old.length := by
  simp only [between, List.map_map]
  exact List.zipIdx_map_fst (old.length + 1) (new.drop old.length)

/-- What the modified positions are replaced in: the lines of `new` over those of `old`, as far as
`old` goes. -/
def overlay : List Text :=
  new.take old.length ++ old.drop new.length

theorem length_overlay : (overlay old new).length = old.length := by
  simp only [overlay, List.length_append, List.length_take, List.length_drop]
  omega

theorem getElem?_overlay (i : Nat) :
    (overlay old new)[i]? =
      if i < new.length then if i < old.length then new[i]? else none else old[i]? := by
  rw [overlay, List.getElem?_append, List.length_take, List.getElem?_take, List.getElem?_drop]
  grind

theorem take_overlay : (overlay old new).take new.length = new.take old.length := by
  rw [overlay]
  cases Nat.le_total new.length old.length with
  | inl shorter => rw [List.take_of_length_le shorter, List.take_left]
  | inr longer =>
      rw [List.drop_eq_nil_of_le longer, List.append_nil, List.take_take, Nat.min_eq_right longer]

theorem replaceAt_modifiedBetween : replaceAt (modifiedBetween old new) old = overlay old new := by
  apply replaceAt_eq
  · exact (length_overlay old new).symm
  · intro c hc
    obtain ⟨-, before, after, -⟩ := (mem_modifiedBetween old new c).mp hc
    have inOld := (List.getElem?_eq_some_iff.mp before).1
    have inNew := (List.getElem?_eq_some_iff.mp after).1
    rw [getElem?_overlay, if_pos inNew, if_pos inOld, after]
  · intro i differ
    rw [getElem?_overlay] at differ
    split at differ
    · split at differ
      · rename_i inNew inOld
        have before := List.getElem?_eq_getElem inOld
        have after := List.getElem?_eq_getElem inNew
        refine ⟨⟨i + 1, old[i], new[i]⟩, ?_, rfl⟩
        rw [mem_modifiedBetween]
        refine ⟨Nat.le_add_left 1 i, before, after, fun same => differ ?_⟩
        rw [before, after]
        exact congrArg some same
      · rename_i beyond
        exact absurd (List.getElem?_eq_none (Nat.not_lt.mp beyond)) differ
    · exact absurd rfl differ

theorem patch_between : (between old new).patch old = new := by
  have kept : deleteAt ((between old new).removed.map Change.position) (overlay old new) =
      new.take old.length := by
    rw [positions_removed, ← take_overlay]
    apply deleteAt_eq_take
    · intro p hp
      exact (List.mem_range'_1.mp hp).1
    · intro p beyond within
      rw [length_overlay] at within
      rw [List.mem_range'_1]
      omega
  calc (between old new).patch old
      = deleteAt ((between old new).removed.map Change.position)
          (replaceAt (modifiedBetween old new) old) ++ (between old new).added.map Change.new := rfl
    _ = new.take old.length ++ new.drop old.length := by
        rw [replaceAt_modifiedBetween, kept, texts_added]
    _ = new := List.take_append_drop _ _

end
end Diff

/-- The differences between two plans, whatever their steps are, turn the descriptions of the one
into those of the other. Modified positions hold what is replaced there and lie within both plans,
added and removed ones are exactly those that one of the plans has alone, and each list is in
order. The other way round the same differences are found, reversed. -/
theorem diff_is_patch (old new : Plan) :
    let before := old.steps.map Step.describe
    let after := new.steps.map Step.describe
    let d := Diff.ofPlans old new
    let common := min before.length after.length
    d.patch before = after ∧
    (∀ c ∈ d.modified, 1 ≤ c.position ∧ c.position ≤ common ∧
      before[c.position - 1]? = some c.old ∧ c.old ≠ c.new) ∧
    ((d.modified.map Change.position).Pairwise (· < ·) ∧
      (d.added.map Change.position).Pairwise (· < ·) ∧
      (d.removed.map Change.position).Pairwise (· < ·)) ∧
    (∀ n, n ∈ d.added.map Change.position ∨ n ∈ d.removed.map Change.position ↔
      common < n ∧ n ≤ max before.length after.length) ∧
    (d.added = [] ∨ d.removed = []) ∧
    Diff.ofPlans new old = d.reverse := by
  intro before after d common
  have added : d.added.map Change.position = _ := Diff.positions_added before after
  have removed : d.removed.map Change.position = _ := Diff.positions_removed before after
  refine ⟨Diff.patch_between before after, ?_, ⟨Diff.modifiedBetween_increasing before after, ?_, ?_⟩,
    ?_, ?_, Diff.between_reverse before after⟩
  · intro c hc
    obtain ⟨counted, replaced, put, differ⟩ := (Diff.mem_modifiedBetween before after c).mp hc
    have inOld := (List.getElem?_eq_some_iff.mp replaced).1
    have inNew := (List.getElem?_eq_some_iff.mp put).1
    exact ⟨counted, by omega, replaced, differ⟩
  · rw [added]
    exact List.pairwise_lt_range'
  · rw [removed]
    exact List.pairwise_lt_range'
  · intro n
    rw [added, removed, List.mem_range'_1, List.mem_range'_1]
    omega
  · cases Nat.le_total before.length after.length with
    | inl longer =>
        right
        rw [← List.map_eq_nil_iff (f := Change.position), removed, Nat.sub_eq_zero_of_le longer]
        rfl
    | inr shorter =>
        left
        rw [← List.map_eq_nil_iff (f := Change.position), added, Nat.sub_eq_zero_of_le shorter]
        rfl

end KeyScript
