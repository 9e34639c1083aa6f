import Mathlib.Tactic.SplitIfs
import KeyScript.Sorting

/-!
The parts of the sort that stand on their own. All that the sort does is to
exchange two elements of a stretch, so each part of it is first shown to be a
series of exchanges: these keep what is outside the stretch and every bound on
the ranks inside. What remains is the order that each part brings about, here
that of insertion and of a heap.
-/

namespace KeyScript
namespace Sorting

variable {α : Type}

/-- The second array comes from the first by exchanges at positions from `lo` on and before
`hi`. -/
inductive Exchanged (lo hi : Nat) (xs : Array α) : Array α → Prop where
  | refl : Exchanged lo hi xs xs
  | swap {ys : Array α} {i j : Nat} : Exchanged lo hi xs ys → lo ≤ i ∧ i < hi → lo ≤ j ∧ j < hi →
      Exchanged lo hi xs (ys.swapIfInBounds i j)

/-- The ranks from `lo` on and before `hi` do not fall. -/
def Sorted (rank : α → Nat) (lo hi : Nat) (xs : Array α) : Prop :=
  ∀ i j, lo ≤ i → i < j → j < hi → rankAt rank xs i ≤ rankAt rank xs j

/-- Nothing from `lo` on and before `hi` ranks below the element in front, if there is one. -/
def Based (rank : α → Nat) (lo hi : Nat) (xs : Array α) : Prop :=
  0 < lo → ∀ k, lo ≤ k → k < hi → rankAt rank xs (lo - 1) ≤ rankAt rank xs k

variable {rank : α → Nat} {xs ys zs : Array α} {lo hi : Nat}

theorem rankAt_swap (rank : α → Nat) {i j : Nat} (hi : i < xs.size) (hj : j < xs.size) (k : Nat) :
    rankAt rank (xs.swapIfInBounds i j) k =
      if k = i then rankAt rank xs j else if k = j then rankAt rank xs i else rankAt rank xs k := by
  simp only [rankAt]
  grind

namespace Exchanged

theorem once {i j : Nat} (at_i : lo ≤ i ∧ i < hi) (at_j : lo ≤ j ∧ j < hi) :
    Exchanged lo hi xs (xs.swapIfInBounds i j) :=
  refl.swap at_i at_j

theorem trans (first : Exchanged lo hi xs ys) (second : Exchanged lo hi ys zs) :
    Exchanged lo hi xs zs := by
  induction second with
  | refl => exact first
  | swap _ at_i at_j ih => exact ih.swap at_i at_j

theorem widen {lo' hi' : Nat} (h : Exchanged lo hi xs ys) (left : lo' ≤ lo) (right : hi ≤ hi') :
    Exchanged lo' hi' xs ys := by
  induction h with
  | refl => exact refl
  | swap _ at_i at_j ih => exact ih.swap (by omega) (by omega)

theorem size_eq (h : Exchanged lo hi xs ys) : ys.size = xs.size := by
  induction h with
  | refl => rfl
  | swap _ _ _ ih => rw [Array.size_swapIfInBounds, ih]

theorem perm (h : Exchanged lo hi xs ys) : ys.Perm xs := by
  induction h with
  | refl => exact .refl xs
  | @swap ys i j _ _ _ ih =>
      refine Array.Perm.trans ?_ ih
      rw [Array.swapIfInBounds_def]
      split
      · split
        · exact Array.swap_perm _ _
        · exact .refl ys
      · exact .refl ys

theorem outside (h : Exchanged lo hi xs ys) (fits : hi ≤ xs.size) {k : Nat}
    (out : k < lo ∨ hi ≤ k) : rankAt rank ys k = rankAt rank xs k := by
  induction h with
  | refl => rfl
  | swap before at_i at_j ih =>
      have := before.size_eq
      rw [rankAt_swap rank (by omega) (by omega), if_neg (by omega), if_neg (by omega), ih]

/-- What holds of all ranks of the stretch still does. -/
theorem inside (h : Exchanged lo hi xs ys) (fits : hi ≤ xs.size) {P : Nat → Prop}
    (all : ∀ k, lo ≤ k → k < hi → P (rankAt rank xs k)) :
    ∀ k, lo ≤ k → k < hi → P (rankAt rank ys k) := by
  induction h with
  | refl => exact all
  | swap before at_i at_j ih =>
      intro k left right
      have := before.size_eq
      rw [rankAt_swap rank (by omega) (by omega)]
      split
      · exact ih _ at_j.1 at_j.2
      · split
        · exact ih _ at_i.1 at_i.2
        · exact ih _ left right

theorem sorted_apart {lo' hi' : Nat} (h : Exchanged lo hi xs ys) (fits : hi ≤ xs.size)
    (apart : hi' ≤ lo ∨ hi ≤ lo') (sorted : Sorted rank lo' hi' xs) : Sorted rank lo' hi' ys := by
  intro i j low order high
  rw [h.outside fits (by omega), h.outside fits (by omega)]
  exact sorted i j low order high

theorem based (h : Exchanged lo hi xs ys) (fits : hi ≤ xs.size) (base : Based rank lo hi xs) :
    Based rank lo hi ys := by
  intro inner
  rw [h.outside fits (by omega)]
  exact h.inside fits (base inner)

end Exchanged

theorem Based.shorten {mid : Nat} (h : Based rank lo hi xs) (short : mid ≤ hi) :
    Based rank lo mid xs :=
  fun inner k low high => h inner k low (Nat.lt_of_lt_of_le high short)

namespace Sorted

theorem of_short (short : hi ≤ lo + 1) : Sorted rank lo hi xs := by
  intro i j left order right
  omega

/-- Two sorted stretches side by side, when a rank in between parts them. -/
theorem append {mid : Nat} (left : Sorted rank lo mid xs) (right : Sorted rank mid hi xs)
    (parted : ∀ i, lo ≤ i → i < mid → ∀ j, mid ≤ j → j < hi →
      rankAt rank xs i ≤ rankAt rank xs j) : Sorted rank lo hi xs := by
  intro i j low order high
  by_cases before : j < mid
  · exact left i j low order before
  · by_cases after : mid ≤ i
    · exact right i j after order high
    · exact parted i low (by omega) j (by omega) high

theorem push_top (h : Sorted rank lo hi xs)
    (top : ∀ k, lo ≤ k → k < hi → rankAt rank xs k ≤ rankAt rank xs hi) :
    Sorted rank lo (hi + 1) xs := by
  refine h.append (of_short (Nat.le_refl _)) fun i left right j _ _ => ?_
  obtain rfl : j = hi := by omega
  exact top i left right

theorem push (h : Sorted rank lo hi xs) (last : rankAt rank xs (hi - 1) ≤ rankAt rank xs hi) :
    Sorted rank lo (hi + 1) xs := by
  intro i j low order high
  by_cases before : j < hi
  · exact h i j low order before
  · obtain rfl : j = hi := by omega
    by_cases next : i = j - 1
    · exact next ▸ last
    · exact Nat.le_trans (h i (j - 1) low (by omega) (by omega)) last

end Sorted

section Insertion

variable {a n : Nat}

theorem sink_exchanged (rank : α → Nat) (a n : Nat) (xs : Array α) :
    Exchanged a (a + n + 1) xs (sink rank a n xs) := by
  fun_induction sink rank a n xs with
  | case1 xs => exact .refl
  | case2 n xs falls ih =>
      exact (Exchanged.once (by omega) (by omega)).trans (ih.widen (by omega) (by omega))
  | case3 n xs stays => exact .refl

/-- Sinking the one element that may rank below those before it. -/
theorem sink_sorted (fits : hi ≤ xs.size) (within : a + n < hi)
    (order : ∀ i j, a ≤ i → i < j → j < hi → j ≠ a + n → rankAt rank xs i ≤ rankAt rank xs j) :
    Sorted rank a hi (sink rank a n xs) := by
  fun_induction sink rank a n xs with
  | case1 xs =>
      intro i j left between right
      exact order i j left between right (by omega)
  | case2 n xs falls ih =>
      simp only [below, decide_eq_true_eq] at falls
      refine ih (by simpa using fits) (by omega) ?_
      intro i j left between right other
      have := order i j
      have := order i (a + n)
      have := order (a + n) j
      have := order (a + n + 1) j
      rw [rankAt_swap rank (by omega) (by omega), rankAt_swap rank (by omega) (by omega)]
      split_ifs <;> omega
  | case3 n xs stays =>
      simp only [below, decide_eq_true_eq, Nat.not_lt] at stays
      intro i j left between right
      by_cases last : j = a + (n + 1)
      · subst last
        by_cases next : i = a + n
        · exact next ▸ stays
        · exact Nat.le_trans (order i (a + n) left (by omega) (by omega) (by omega)) stays
      · exact order i j left between right last

theorem insertionSort_exchanged (rank : α → Nat) (a n : Nat) (xs : Array α) :
    Exchanged a (a + n) xs (insertionSort rank a n xs) := by
  induction n with
  | zero => exact .refl
  | succ n ih => exact (ih.widen (by omega) (by omega)).trans (sink_exchanged rank a n _)

theorem insertionSort_sorted (fits : a + n ≤ xs.size) :
    Sorted rank a (a + n) (insertionSort rank a n xs) := by
  induction n with
  | zero => exact .of_short (by omega)
  | succ n ih =>
      have same := (insertionSort_exchanged rank a n xs).size_eq
      refine sink_sorted (by omega) (by omega) ?_
      intro i j left between right other
      exact ih (by omega) i j left between (by omega)

/-- An element sinks no further than to the start of a stretch with nothing above it in front. -/
theorem sink_zero (fits : hi ≤ xs.size) (within : a + n < hi) (base : Based rank a hi xs) :
    sink rank 0 (a + n) xs = sink rank a n xs := by
  fun_induction sink rank a n xs with
  | case1 xs =>
      cases a with
      | zero => rfl
      | succ a =>
          have stays : ¬ below rank xs (a + 1) a := by
            simpa [below] using base (by omega) (a + 1) (by omega) (by omega)
          simp [sink, stays]
  | case2 n xs falls ih =>
      rw [Nat.add_succ, sink, Nat.zero_add, if_pos falls]
      refine ih (by simpa using fits) (by omega) ?_
      exact (Exchanged.once (by omega) (by omega)).based fits base
  | case3 n xs stays => rw [Nat.add_succ, sink, Nat.zero_add, if_neg stays]

end Insertion

section Heap

variable {a n k node : Nat}

/-- In the heap of the first `n` elements from `a` on, no child of a node from `k` on ranks above
it. -/
def HeapFrom (rank : α → Nat) (a n k : Nat) (xs : Array α) : Prop :=
  ∀ child, 0 < child → child < n → k ≤ (child - 1) / 2 →
    rankAt rank xs (a + child) ≤ rankAt rank xs (a + (child - 1) / 2)

/-- The same, but for the children of one node; these do not rank above the node's parent. -/
structure HeapBut (rank : α → Nat) (a n k node : Nat) (xs : Array α) : Prop where
  others : ∀ child, 0 < child → child < n → k ≤ (child - 1) / 2 → (child - 1) / 2 ≠ node →
    rankAt rank xs (a + child) ≤ rankAt rank xs (a + (child - 1) / 2)
  past : ∀ child, 0 < child → child < n → (child - 1) / 2 = node → 0 < node →
    k ≤ (node - 1) / 2 → rankAt rank xs (a + child) ≤ rankAt rank xs (a + (node - 1) / 2)

theorem no_child_of_highestChild (h : highestChild rank a n node xs = none) : n ≤ 2 * node + 1 := by
  simp only [highestChild] at h
  split at h
  · assumption
  · split at h <;> cases h

theorem le_highestChild {top : Nat} (h : highestChild rank a n node xs = some top) :
    (top - 1) / 2 = node ∧ ∀ child, 0 < child → child < n → (child - 1) / 2 = node →
      rankAt rank xs (a + child) ≤ rankAt rank xs (a + top) := by
  simp only [highestChild, below, Bool.and_eq_true, decide_eq_true_eq] at h
  split at h
  · cases h
  · split at h
    all_goals
      cases h
      refine ⟨by omega, fun child pos within parent => ?_⟩
      obtain rfl | rfl : child = 2 * node + 1 ∨ child = 2 * node + 1 + 1 := by omega
      all_goals omega

theorem siftDown_exchanged (rank : α → Nat) (a n node : Nat) (xs : Array α) :
    Exchanged a (a + n) xs (siftDown rank a n node xs) := by
  fun_induction siftDown rank a n node xs with
  | case1 node xs found => exact .refl
  | case2 node xs top found falls ih =>
      have := lt_of_highestChild rank found
      exact (Exchanged.once (by omega) (by omega)).trans ih
  | case3 node xs top found stays => exact .refl

theorem HeapBut.heap (h : HeapBut rank a n k node xs)
    (top : ∀ child, 0 < child → child < n → (child - 1) / 2 = node →
      rankAt rank xs (a + child) ≤ rankAt rank xs (a + node)) : HeapFrom rank a n k xs := by
  intro child pos within from_k
  by_cases parent : (child - 1) / 2 = node
  · exact parent ▸ top child pos within parent
  · exact h.others child pos within from_k parent

/-- One exchange moves the place where the order may fail down to a child. -/
theorem HeapBut.descend (h : HeapBut rank a n k node xs) (fits : a + n ≤ xs.size) {top : Nat}
    (found : highestChild rank a n node xs = some top)
    (falls : below rank xs (a + node) (a + top)) :
    HeapBut rank a n k top (xs.swapIfInBounds (a + node) (a + top)) := by
  obtain ⟨after, within⟩ := lt_of_highestChild rank found
  obtain ⟨parent, highest⟩ := le_highestChild found
  simp only [below, decide_eq_true_eq] at falls
  have at_node := rankAt_swap rank (show a + node < xs.size by omega)
    (show a + top < xs.size by omega)
  constructor
  · intro child pos inside from_k other
    rw [at_node, at_node]
    by_cases above : child = node
    · subst above
      rw [if_pos rfl, if_neg (by omega), if_neg (by omega)]
      exact h.past top (by omega) within parent pos from_k
    · have := h.others child pos inside from_k
      have := highest child pos inside
      split_ifs <;> omega
  · intro child pos inside same filled from_k
    have := h.others child pos inside
    rw [at_node, at_node, same, parent] at *
    split_ifs <;> omega

theorem siftDown_heap (fits : a + n ≤ xs.size) (h : HeapBut rank a n k node xs) :
    HeapFrom rank a n k (siftDown rank a n node xs) := by
  fun_induction siftDown rank a n node xs with
  | case1 node xs found =>
      have := no_child_of_highestChild found
      refine h.heap fun child pos inside parent => ?_
      omega
  | case2 node xs top found falls ih =>
      exact ih (by simpa using fits) (h.descend fits found falls)
  | case3 node xs top found stays =>
      simp only [below, decide_eq_true_eq, Nat.not_lt] at stays
      refine h.heap fun child pos inside parent => ?_
      exact Nat.le_trans ((le_highestChild found).2 child pos inside parent) stays

theorem heapify_exchanged (rank : α → Nat) (a n k : Nat) (xs : Array α) :
    Exchanged a (a + n) xs (heapify rank a n k xs) := by
  induction k generalizing xs with
  | zero => exact .refl
  | succ k ih => exact (siftDown_exchanged rank a n k xs).trans (ih _)

theorem heapify_heap (fits : a + n ≤ xs.size) (h : HeapFrom rank a n k xs) :
    HeapFrom rank a n 0 (heapify rank a n k xs) := by
  induction k generalizing xs with
  | zero => exact h
  | succ k ih =>
      refine ih ?_ (siftDown_heap fits ⟨?_, ?_⟩)
      · rwa [(siftDown_exchanged rank a n k xs).size_eq]
      · intro child pos within from_k other
        exact h child pos within (by omega)
      · intro child pos within parent inner from_k
        omega

/-- Nothing in a heap ranks above its root. -/
theorem HeapFrom.le_root (h : HeapFrom rank a n 0 xs) :
    ∀ node, node < n → rankAt rank xs (a + node) ≤ rankAt rank xs a := by
  intro node within
  induction node using Nat.strongRecOn with
  | ind node ih =>
      by_cases root : node = 0
      · simp [root]
      · exact Nat.le_trans (h node (by omega) within (Nat.zero_le _))
          (ih _ (by omega) (by omega))

theorem drain_exchanged (rank : α → Nat) (a n : Nat) (xs : Array α) :
    Exchanged a (a + n) xs (drain rank a n xs) := by
  induction n generalizing xs with
  | zero => exact .refl
  | succ n ih =>
      have top : Exchanged a (a + n + 1) xs (xs.swapIfInBounds a (a + n)) :=
        .once (by omega) (by omega)
      have sift := siftDown_exchanged rank a n 0 (xs.swapIfInBounds a (a + n))
      exact top.trans ((sift.trans (ih _)).widen (by omega) (by omega))

/-- The root goes to the end, and a heap remains but for its new root. -/
theorem HeapFrom.take_root (h : HeapFrom rank a (n + 1) 0 xs) (fits : a + n < xs.size) :
    (∀ k, a ≤ k → k < a + n → rankAt rank (xs.swapIfInBounds a (a + n)) k ≤
      rankAt rank (xs.swapIfInBounds a (a + n)) (a + n)) ∧
    HeapBut rank a n 0 0 (xs.swapIfInBounds a (a + n)) := by
  have swapped := rankAt_swap rank (show a < xs.size by omega) fits
  have root := h.le_root n (by omega)
  refine ⟨fun k left right => ?_, fun child pos within _ other => ?_, fun _ _ _ _ inner => ?_⟩
  · have below_root := h.le_root (k - a) (by omega)
    rw [Nat.add_sub_cancel' left] at below_root
    rw [swapped, swapped]
    split_ifs <;> omega
  · have := h child pos (by omega) (Nat.zero_le _)
    rw [swapped, swapped]
    split_ifs <;> omega
  · omega

theorem drain_sorted (fits : a + n ≤ xs.size) (h : HeapFrom rank a n 0 xs) :
    Sorted rank a (a + n) (drain rank a n xs) := by
  induction n generalizing xs with
  | zero => exact .of_short (by omega)
  | succ n ih =>
      obtain ⟨highest, remains⟩ := h.take_root fits
      have size := xs.size_swapIfInBounds (i := a) (j := a + n)
      have sift := siftDown_exchanged rank a n 0 (xs.swapIfInBounds a (a + n))
      have sorted := ih (by rw [sift.size_eq]; omega) (siftDown_heap (by omega) remains)
      have rest := sift.trans (drain_exchanged rank a n _)
      refine sorted.push_top fun k left right => ?_
      rw [rest.outside (by omega) (.inr (Nat.le_refl _))]
      exact rest.inside (P := (· ≤ _)) (by omega) highest k left right

theorem heapSort_exchanged (rank : α → Nat) (a n : Nat) (xs : Array α) :
    Exchanged a (a + n) xs (heapSort rank a n xs) :=
  (heapify_exchanged rank a n _ xs).trans (drain_exchanged rank a n _)

theorem heapSort_sorted (fits : a + n ≤ xs.size) :
    Sorted rank a (a + n) (heapSort rank a n xs) := by
  refine drain_sorted ?_ (heapify_heap fits fun child pos within parent => ?_)
  · rwa [(heapify_exchanged rank a n _ xs).size_eq]
  · omega

end Heap

end Sorting
end KeyScript
