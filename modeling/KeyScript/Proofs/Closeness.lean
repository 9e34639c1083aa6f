import Mathlib.Order.Bounds.Defs
import KeyScript.Text.Distance

/-!
What closeness of spellings means. The distance of two lists is the least number
of typos that lead from one to the other, where a typo inserts, deletes or
replaces one element at any place. The table of distances is filled from the
fronts of both lists, so its rows are read with the lists turned around.
-/

namespace KeyScript

variable {α : Type}

/-- One element is inserted, deleted or replaced, somewhere in the list. -/
inductive Typo : List α → List α → Prop
  | insert (a : α) (s : List α) : Typo s (a :: s)
  | delete (a : α) (s : List α) : Typo (a :: s) s
  | replace (a b : α) (s : List α) : Typo (a :: s) (b :: s)
  | later (a : α) {s t : List α} : Typo s t → Typo (a :: s) (a :: t)

/-- So many typos lead from one list to another. -/
inductive Typos : Nat → List α → List α → Prop
  | none (s : List α) : Typos 0 s s
  | more {n : Nat} {s t u : List α} : Typo s t → Typos n t u → Typos (n + 1) s u

theorem Typo.append_left {s t : List α} (h : Typo s t) (front : List α) :
    Typo (front ++ s) (front ++ t) := by
  induction front with
  | nil => exact h
  | cons a front ih => exact .later a ih

theorem Typo.append_right {s t : List α} (h : Typo s t) (back : List α) :
    Typo (s ++ back) (t ++ back) := by
  induction h with
  | insert a s => exact .insert a _
  | delete a s => exact .delete a _
  | replace a b s => exact .replace a b _
  | later a _ ih => exact .later a ih

theorem Typo.reverse {s t : List α} (h : Typo s t) : Typo s.reverse t.reverse := by
  induction h with
  | insert a s => simpa using (Typo.insert a []).append_left s.reverse
  | delete a s => simpa using (Typo.delete a []).append_left s.reverse
  | replace a b s => simpa using (Typo.replace a b []).append_left s.reverse
  | later a _ ih => simpa using ih.append_right [a]

namespace Typos

theorem reverse {n : Nat} {s t : List α} (h : Typos n s t) : Typos n s.reverse t.reverse := by
  induction h with
  | none s => exact .none _
  | more typo _ ih => exact .more typo.reverse ih

theorem later {n : Nat} {s t : List α} (h : Typos n s t) (a : α) :
    Typos n (a :: s) (a :: t) := by
  induction h with
  | none s => exact .none _
  | more typo _ ih => exact .more (.later a typo) ih

theorem snoc {n : Nat} {s t u : List α} (h : Typos n s t) (last : Typo t u) :
    Typos (n + 1) s u := by
  induction h with
  | none s => exact .more last (.none _)
  | more typo _ ih => exact .more typo (ih last)

end Typos

/-- Typos in order from the front of a list, at most one for each element. -/
inductive Edits : Nat → List α → List α → Prop
  | done : Edits 0 [] []
  | keep (a : α) {n : Nat} {s t : List α} : Edits n s t → Edits n (a :: s) (a :: t)
  | insert (b : α) {n : Nat} {s t : List α} : Edits n s t → Edits (n + 1) s (b :: t)
  | delete (a : α) {n : Nat} {s t : List α} : Edits n s t → Edits (n + 1) (a :: s) t
  | replace (a b : α) {n : Nat} {s t : List α} :
      Edits n s t → Edits (n + 1) (a :: s) (b :: t)

namespace Edits

theorem refl (s : List α) : Edits 0 s s := by
  induction s with
  | nil => exact .done
  | cons a s ih => exact .keep a ih

theorem typos {n : Nat} {s t : List α} (h : Edits n s t) : Typos n s t := by
  induction h with
  | done => exact .none _
  | keep a _ ih => exact ih.later a
  | insert b _ ih => exact ih.snoc (.insert b _)
  | delete a _ ih => exact .more (.delete a _) ih
  | replace a b _ ih => exact .more (.replace a b _) (ih.later b)

/-- A typo more costs at most one step more. -/
theorem ofTypo {s t u : List α} (typo : Typo s t) {n : Nat} (h : Edits n t u) :
    ∃ m ≤ n + 1, Edits m s u := by
  induction h generalizing s with
  | done =>
      cases typo with
      | delete a => exact ⟨1, Nat.le_refl _, .delete a .done⟩
  | @keep a n t u rest ih =>
      cases typo with
      | insert => exact ⟨n + 1, Nat.le_refl _, .insert a rest⟩
      | delete c => exact ⟨n + 1, Nat.le_refl _, .delete c (.keep a rest)⟩
      | replace c => exact ⟨n + 1, Nat.le_refl _, .replace c a rest⟩
      | later _ typo =>
          obtain ⟨m, few, edits⟩ := ih typo
          exact ⟨m, few, .keep a edits⟩
  | insert b _ ih =>
      obtain ⟨m, few, edits⟩ := ih typo
      exact ⟨m + 1, Nat.succ_le_succ few, .insert b edits⟩
  | @delete a n t u rest ih =>
      cases typo with
      | insert => exact ⟨n, by omega, rest⟩
      | delete c => exact ⟨n + 2, Nat.le_refl _, .delete c (.delete a rest)⟩
      | replace c => exact ⟨n + 1, by omega, .delete c rest⟩
      | later _ typo =>
          obtain ⟨m, few, edits⟩ := ih typo
          exact ⟨m + 1, Nat.succ_le_succ few, .delete a edits⟩
  | @replace a b n t u rest ih =>
      cases typo with
      | insert => exact ⟨n + 1, by omega, .insert b rest⟩
      | delete c => exact ⟨n + 2, Nat.le_refl _, .delete c (.replace a b rest)⟩
      | replace c => exact ⟨n + 1, by omega, .replace c b rest⟩
      | later _ typo =>
          obtain ⟨m, few, edits⟩ := ih typo
          exact ⟨m + 1, Nat.succ_le_succ few, .replace a b edits⟩

theorem ofTypos {n : Nat} {s t : List α} (h : Typos n s t) : ∃ m ≤ n, Edits m s t := by
  induction h with
  | none s => exact ⟨0, Nat.le_refl _, refl s⟩
  | more typo _ ih =>
      obtain ⟨m, few, edits⟩ := ih
      obtain ⟨k, fewer, longer⟩ := ofTypo typo edits
      exact ⟨k, by omega, longer⟩

end Edits

/-- The edits between two lists take `d` typos at least. -/
structure Fewest (s t : List α) (d : Nat) : Prop where
  reached : Edits d s t
  least : ∀ {n : Nat}, Edits n s t → d ≤ n

namespace Fewest

theorem nil (t : List α) : Fewest [] t t.length where
  reached := by
    induction t with
    | nil => exact .done
    | cons b t ih => exact .insert b ih
  least := by
    intro n edits
    induction t generalizing n with
    | nil => exact Nat.zero_le _
    | cons b t ih =>
        cases edits with
        | insert _ rest => exact Nat.succ_le_succ (ih rest)

theorem cons_nil {s : List α} {d : Nat} (h : Fewest s [] d) (a : α) :
    Fewest (a :: s) [] (d + 1) where
  reached := .delete a h.reached
  least edits := by
    cases edits with
    | delete _ rest => exact Nat.succ_le_succ (h.least rest)

variable [DecidableEq α]

/-- The step of the table: the last typo is an insertion, a deletion or a replacement, and there
is none if the elements are equal. -/
theorem cons_cons {a b : α} {s t : List α} {left above diagonal : Nat}
    (hl : Fewest (a :: s) t left) (ha : Fewest s (b :: t) above) (hd : Fewest s t diagonal) :
    Fewest (a :: s) (b :: t)
      (min (min (left + 1) (above + 1)) (if a = b then diagonal else diagonal + 1)) where
  reached := by
    have across : Edits (if a = b then diagonal else diagonal + 1) (a :: s) (b :: t) := by
      split
      · rename_i same
        exact same ▸ .keep a hd.reached
      · exact .replace a b hd.reached
    grind [Edits.insert b hl.reached, Edits.delete a ha.reached]
  least edits := by
    cases edits with
    | keep _ rest =>
        have := hd.least rest
        grind
    | insert _ rest =>
        have := hl.least rest
        omega
    | delete _ rest =>
        have := ha.least rest
        omega
    | replace _ _ rest =>
        have := hd.least rest
        grind

end Fewest

/-- A row of the table: the least numbers of typos between `s` and the lists that grow from `t`
with the elements of `bs`, one after the other, at their fronts. -/
inductive Row (s : List α) : List α → List α → List Nat → Prop
  | last {t : List α} {d : Nat} : Fewest s t d → Row s t [] [d]
  | more {t bs : List α} {b : α} {d : Nat} {row : List Nat} :
      Fewest s t d → Row s (b :: t) bs row → Row s t (b :: bs) (d :: row)

namespace Row

theorem first (t bs : List α) : Row [] t bs (List.range' t.length (bs.length + 1)) := by
  induction bs generalizing t with
  | nil => exact .last (.nil t)
  | cons b bs ih => exact .more (.nil t) (ih (b :: t))

theorem fewest_getLastD {s t bs : List α} {row : List Nat} (h : Row s t bs row) (d : Nat) :
    Fewest s (bs.reverse ++ t) (row.getLastD d) := by
  induction h generalizing d with
  | last fewest => exact fewest
  | more _ _ ih =>
      rw [List.getLastD_cons, List.reverse_cons, List.append_assoc]
      exact ih _

variable [DecidableEq α]

theorem fillRow {s : List α} {a : α} {t bs : List α} {left diagonal : Nat} {rest : List Nat}
    (corner : Fewest (a :: s) t left) (h : Row s t bs (diagonal :: rest)) :
    Row (a :: s) t bs (left :: KeyScript.fillRow a left diagonal bs rest) := by
  induction bs generalizing t left diagonal rest with
  | nil =>
      cases h
      exact .last corner
  | cons b bs ih =>
      cases h with
      | more hd row =>
          cases rest with
          | nil => cases row
          | cons above rest =>
              have ha : Fewest s (b :: t) above := by cases row <;> assumption
              exact .more corner (ih (corner.cons_cons ha hd) row)

theorem nextRow {s bs : List α} {row : List Nat} (h : Row s [] bs row) (a : α) :
    Row (a :: s) [] bs (KeyScript.nextRow bs row a) := by
  cases row with
  | nil => cases h
  | cons d rest =>
      have corner : Fewest s [] d := by cases h <;> assumption
      exact fillRow (corner.cons_nil a) h

/-- What the table holds after more elements: its row is the one of the longer list. -/
theorem foldl_nextRow {s bs : List α} {row : List Nat} (h : Row s [] bs row) (as : List α) :
    Row (as.reverse ++ s) [] bs (as.foldl (KeyScript.nextRow bs) row) := by
  induction as generalizing s row with
  | nil => exact h
  | cons a as ih => simpa using ih (h.nextRow a)

end Row

variable [DecidableEq α]

theorem fewest_editDistance (as bs : List α) :
    Fewest as.reverse bs.reverse (editDistance as bs) := by
  have start : Row [] [] bs (List.range (bs.length + 1)) := by
    rw [List.range_eq_range']
    exact .first [] bs
  simpa [editDistance] using (start.foldl_nextRow as).fewest_getLastD 0

/-- The distance is the least number of typos. -/
theorem isLeast_editDistance (as bs : List α) :
    IsLeast {n | Typos n as bs} (editDistance as bs) := by
  have fewest := fewest_editDistance as bs
  have reached : Typos (editDistance as bs) as bs := by
    simpa using fewest.reached.typos.reverse
  refine ⟨reached, ?_⟩
  intro n typos
  obtain ⟨m, few, edits⟩ := Edits.ofTypos (Typos.reverse typos)
  exact Nat.le_trans (fewest.least edits) few

theorem isScattered_iff_sublist {as bs : List α} : isScattered as bs ↔ as.Sublist bs := by
  fun_induction isScattered as bs with
  | case1 bs => simp
  | case2 a as => simp
  | case3 as b bs ih => simpa using ih
  | case4 a as b bs differ ih => grind

end KeyScript
