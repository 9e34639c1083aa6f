import Mathlib.Data.List.Pairwise
import KeyScript.Proofs.Exchanges

/-!
Sorting by rank gives the same elements with their ranks in order. The quicksort
sorts a stretch if the element in front of it does not rank above any in it,
which every division keeps up.
-/

namespace KeyScript
namespace Sorting

variable {α : Type} {rank : α → Nat} {xs ys zs : Array α} {lo hi : Nat}

section Division

variable {a n pivot : Nat}

theorem divide_exchanged (rank : α → Nat) (left : Nat → Bool) (calm : Bool) (a n : Nat)
    (xs : Array α) : Exchanged a (a + n) xs (divide rank left calm a n xs).xs := by
  fun_induction divide rank left calm a n xs with
  | case1 => exact .refl
  | case2 => exact .refl
  | case3 calm a n xs first ih => exact ih.widen (by omega) (by omega)
  | case4 calm a n xs first last ih =>
      exact (Exchanged.once (by omega) (by omega)).trans (ih.widen (by omega) (by omega))
  | case5 calm a n xs first last ih => exact ih.widen (by omega) (by omega)

/-- What is in front is accepted, and what is behind is not. -/
structure Divided (rank : α → Nat) (left : Nat → Bool) (a n : Nat) (d : Division α) : Prop where
  front : ∀ k, a ≤ k → k < a + d.front → left (rankAt rank d.xs k)
  back : ∀ k, a + d.front ≤ k → k < a + n → ¬ left (rankAt rank d.xs k)

namespace Divided

variable {left : Nat → Bool} {d : Division α}

theorem nil (calm : Bool) : Divided rank left a 0 ⟨xs, 0, calm⟩ :=
  ⟨fun k low high => by simp at high; omega, fun k low high => by omega⟩

theorem cons (h : Divided rank left (a + 1) n d) (first : left (rankAt rank d.xs a)) :
    Divided rank left a (n + 1) d.oneMore := by
  constructor <;> simp only [Division.oneMore_xs, Division.oneMore_front]
  · intro k low high
    by_cases start : k = a
    · exact start ▸ first
    · exact h.front k (by omega) (by omega)
  · intro k low high
    exact h.back k (by omega) (by omega)

theorem concat (h : Divided rank left a n d) (last : ¬ left (rankAt rank d.xs (a + n))) :
    Divided rank left a (n + 1) d := by
  refine ⟨h.front, fun k low high => ?_⟩
  by_cases stop : k = a + n
  · exact stop ▸ last
  · exact h.back k low (by omega)

end Divided

theorem divide_divided (left : Nat → Bool) (calm : Bool) (fits : a + n ≤ xs.size) :
    Divided rank left a n (divide rank left calm a n xs) := by
  fun_induction divide rank left calm a n xs with
  | case1 calm a xs => exact .nil calm
  | case2 calm a xs =>
      split
      · exact (Divided.nil calm).cons ‹_›
      · exact (Divided.nil calm).concat ‹_›
  | case3 calm a n xs first ih =>
      have inner := divide_exchanged rank left calm (a + 1) (n + 1) xs
      refine (ih (by omega)).cons ?_
      rwa [inner.outside (by omega) (by omega)]
  | case4 calm a n xs first last ih =>
      have inner := divide_exchanged rank left false (a + 1) n (xs.swapIfInBounds a (a + n + 1))
      have size := xs.size_swapIfInBounds (i := a) (j := a + n + 1)
      refine ((ih (by omega)).cons ?_).concat ?_
      · rw [inner.outside (by omega) (by omega), rankAt_swap rank (by omega) (by omega), if_pos rfl]
        exact last
      · rw [← Nat.add_assoc, Division.oneMore_xs, inner.outside (by omega) (by omega),
          rankAt_swap rank (by omega) (by omega), if_neg (by omega), if_pos rfl]
        exact first
  | case5 calm a n xs first last ih =>
      have inner := divide_exchanged rank left calm a (n + 1) xs
      refine (ih (by omega)).concat ?_
      rwa [← Nat.add_assoc, inner.outside (by omega) (by omega)]

theorem partition_exchanged (rank : α → Nat) (inside : a ≤ pivot ∧ pivot < a + n) (xs : Array α) :
    Exchanged a (a + n) xs (partition rank a n pivot xs).xs := by
  have front := partition_front_lt rank (show 0 < n by omega) a pivot xs
  have inner := divide_exchanged rank
    (· < rankAt rank (xs.swapIfInBounds a pivot) a) true (a + 1) (n - 1) (xs.swapIfInBounds a pivot)
  exact ((Exchanged.once (by omega) inside).trans (inner.widen (by omega) (by omega))).swap
    ⟨Nat.le_add_right _ _, Nat.add_lt_add_left front a⟩ (by omega)

/-- The element at `mid` parts the stretch. -/
structure Parted (rank : α → Nat) (lo mid hi : Nat) (xs : Array α) : Prop where
  front : ∀ k, lo ≤ k → k < mid → rankAt rank xs k ≤ rankAt rank xs mid
  back : ∀ k, mid + 1 ≤ k → k < hi → rankAt rank xs mid ≤ rankAt rank xs k

namespace Parted

variable {mid : Nat}

theorem based (h : Parted rank lo mid hi xs) : Based rank (mid + 1) hi xs :=
  fun _ => h.back

theorem exchanged_front (h : Parted rank lo mid hi xs) (fits : mid ≤ xs.size)
    (e : Exchanged lo mid xs ys) : Parted rank lo mid hi ys := by
  constructor <;> rw [e.outside fits (.inr (Nat.le_refl _))]
  · exact e.inside (P := (· ≤ _)) fits h.front
  · intro k low high
    rw [e.outside fits (by omega)]
    exact h.back k low high

theorem exchanged_back (h : Parted rank lo mid hi xs) (fits : hi ≤ xs.size)
    (e : Exchanged (mid + 1) hi xs ys) : Parted rank lo mid hi ys := by
  constructor <;> rw [e.outside fits (.inl (Nat.lt_succ_self _))]
  · intro k low high
    rw [e.outside fits (by omega)]
    exact h.front k low high
  · exact e.inside fits h.back

theorem sorted (h : Parted rank lo mid hi xs) (front : Sorted rank lo mid xs)
    (back : Sorted rank (mid + 1) hi xs) : Sorted rank lo hi xs := by
  refine (front.push_top h.front).append back fun i low high j low' high' => ?_
  refine Nat.le_trans ?_ (h.back j low' high')
  by_cases between : i = mid
  · exact between ▸ Nat.le_refl _
  · exact h.front i low (by omega)

end Parted

theorem partition_parted (fits : a + n ≤ xs.size) (inside : a ≤ pivot ∧ pivot < a + n) :
    Parted rank a (a + (partition rank a n pivot xs).front) (a + n)
      (partition rank a n pivot xs).xs := by
  let ys := xs.swapIfInBounds a pivot
  let d := divide rank (· < rankAt rank ys a) true (a + 1) (n - 1) ys
  have size : ys.size = xs.size := xs.size_swapIfInBounds
  have inner : Exchanged (a + 1) (a + 1 + (n - 1)) ys d.xs := divide_exchanged rank _ _ _ _ _
  have same := inner.size_eq
  have first : rankAt rank d.xs a = rankAt rank ys a := inner.outside (by omega) (by omega)
  have short : d.front ≤ n - 1 := divide_front_le rank _ _ _ _ _
  have divided : Divided rank (· < rankAt rank ys a) (a + 1) (n - 1) d :=
    divide_divided _ _ (by omega)
  have before : ∀ k, a + 1 ≤ k → k < a + 1 + d.front → rankAt rank d.xs k < rankAt rank ys a := by
    simpa using divided.front
  have behind : ∀ k, a + 1 + d.front ≤ k → k < a + 1 + (n - 1) →
      rankAt rank ys a ≤ rankAt rank d.xs k := by
    simpa using divided.back
  -- The last element of the front changes places with the pivot.
  change Parted rank a (a + d.front) (a + n) (d.xs.swapIfInBounds (a + d.front) a)
  have swapped := rankAt_swap rank (show a + d.front < d.xs.size by omega)
    (show a < d.xs.size by omega)
  constructor
  · intro k low high
    have := before k
    have := before (a + d.front)
    rw [swapped, swapped]
    split_ifs <;> omega
  · intro k low high
    have := behind k
    rw [swapped, swapped]
    split_ifs <;> omega

theorem partitionEqual_exchanged (rank : α → Nat) (inside : a ≤ pivot ∧ pivot < a + n)
    (xs : Array α) : Exchanged a (a + n) xs (partitionEqual rank a n pivot xs).xs := by
  have inner := divide_exchanged rank
    (· ≤ rankAt rank (xs.swapIfInBounds a pivot) a) true (a + 1) (n - 1) (xs.swapIfInBounds a pivot)
  exact (Exchanged.once (by omega) inside).trans (inner.widen (by omega) (by omega))

theorem partitionEqual_front (rank : α → Nat) (filled : 0 < n) (a pivot : Nat) (xs : Array α) :
    0 < (partitionEqual rank a n pivot xs).front ∧
      (partitionEqual rank a n pivot xs).front ≤ n := by
  have := divide_front_le rank (· ≤ rankAt rank (xs.swapIfInBounds a pivot) a) true (a + 1) (n - 1)
    (xs.swapIfInBounds a pivot)
  simp only [partitionEqual, Division.oneMore_front]
  omega

theorem partitionEqual_divided (fits : a + n ≤ xs.size) (inside : a ≤ pivot ∧ pivot < a + n) :
    Divided rank (· ≤ rankAt rank xs pivot) a n (partitionEqual rank a n pivot xs) := by
  obtain ⟨n, rfl⟩ : ∃ m, n = m + 1 := ⟨n - 1, by omega⟩
  have size := xs.size_swapIfInBounds (i := a) (j := pivot)
  have chosen : rankAt rank (xs.swapIfInBounds a pivot) a = rankAt rank xs pivot := by
    rw [rankAt_swap rank (by omega) (by omega), if_pos rfl]
  have inner := divide_exchanged rank (· ≤ rankAt rank xs pivot) true (a + 1) n
    (xs.swapIfInBounds a pivot)
  rw [partitionEqual, chosen]
  refine (divide_divided _ _ (by omega)).cons ?_
  rw [inner.outside (by omega) (by omega), chosen]
  simp

end Division

section Patterns

variable {a n i : Nat}

theorem reverseStretch_exchanged (a n : Nat) (xs : Array α) :
    Exchanged a (a + n) xs (reverseStretch a n xs) := by
  fun_induction reverseStretch a n xs with
  | case1 a xs => exact .refl
  | case2 a xs => exact .refl
  | case3 a n xs ih =>
      exact (Exchanged.once (by omega) (by omega)).trans (ih.widen (by omega) (by omega))

theorem rise_exchanged (rank : α → Nat) (filled : lo < i) (xs : Array α) :
    Exchanged lo (i + n) xs (rise rank i n xs) := by
  fun_induction rise rank i n xs with
  | case1 i xs => exact .refl
  | case2 i n xs falls ih =>
      exact (Exchanged.once (by omega) (by omega)).trans
        ((ih (by omega)).widen (by omega) (by omega))
  | case3 i n xs stays => exact .refl

theorem descent_le (rank : α → Nat) (xs : Array α) (i n : Nat) :
    i ≤ descent rank xs i n ∧ descent rank xs i n ≤ i + n := by
  fun_induction descent rank xs i n with
  | case1 i => omega
  | case2 i n falls => omega
  | case3 i n rises ih => omega

theorem descent_sorted (h : Sorted rank a i xs) : Sorted rank a (descent rank xs i n) xs := by
  fun_induction descent rank xs i n with
  | case1 i => exact h
  | case2 i n falls => exact h
  | case3 i n rises ih =>
      simp only [below, decide_eq_true_eq, Nat.not_lt] at rises
      exact ih (h.push rises)

/-- The last element of a stretch sinks to its place, though nothing bids it stop at the start. -/
theorem sink_settles (fits : i ≤ xs.size) (start : a < i) (base : Based rank a i xs)
    (h : Sorted rank a (i - 1) xs) :
    Exchanged a i xs (sink rank 0 (i - 1) xs) ∧ Sorted rank a i (sink rank 0 (i - 1) xs) := by
  obtain ⟨k, rfl⟩ : ∃ k, i = a + k + 1 := ⟨i - a - 1, by omega⟩
  rw [Nat.add_sub_cancel, sink_zero fits (Nat.lt_succ_self _) base]
  refine ⟨sink_exchanged rank a k xs, sink_sorted fits (Nat.lt_succ_self _) ?_⟩
  intro i j left between right other
  exact h i j left between (by omega)

theorem settleAt_settles (fits : a + n ≤ xs.size) (start : a < i) (within : i < a + n)
    (base : Based rank a (a + n) xs) (h : Sorted rank a i xs) :
    Exchanged a (a + n) xs (settleAt rank a n i xs) ∧ Sorted rank a i (settleAt rank a n i xs) := by
  let ys := xs.swapIfInBounds i (i - 1)
  let zs := if 2 ≤ i - a then sink rank 0 (i - 1) ys else ys
  have swap : Exchanged a (a + n) xs ys := .once (by omega) (by omega)
  have left : Exchanged a i ys zs ∧ Sorted rank a i zs := by
    simp only [zs]
    split
    · have base' : Based rank a i ys := (swap.based fits base).shorten (by omega)
      have start' : Sorted rank a (i - 1) ys := by
        have apart : Exchanged (i - 1) (a + n) xs ys := .once (by omega) (by omega)
        refine apart.sorted_apart fits (.inl (Nat.le_refl _)) fun j k low order high => ?_
        exact h j k low order (by omega)
      exact sink_settles (by rw [swap.size_eq]; omega) start base' start'
    · exact ⟨.refl, .of_short (by omega)⟩
  have right : Exchanged i (a + n) zs (settleAt rank a n i xs) := by
    simp only [settleAt]
    split
    · exact (rise_exchanged rank (Nat.lt_succ_self i) zs).widen (Nat.le_refl _) (by omega)
    · exact .refl
  have size := (swap.trans (left.1.widen (Nat.le_refl _) (by omega))).size_eq
  refine ⟨?_, right.sorted_apart (by omega) (.inl (Nat.le_refl _)) left.2⟩
  exact (swap.trans (left.1.widen (by omega) (by omega))).trans (right.widen (by omega) (by omega))

theorem settle_settles (steps : Nat) (fits : a + n ≤ xs.size) (start : a < i) (within : i ≤ a + n)
    (base : Based rank a (a + n) xs) (h : Sorted rank a i xs) :
    Exchanged a (a + n) xs (settle rank a n steps i xs).1 ∧
      ((settle rank a n steps i xs).2 → Sorted rank a (a + n) (settle rank a n steps i xs).1) := by
  fun_induction settle rank a n steps i xs with
  | case1 i xs => exact ⟨.refl, by simp⟩
  | case2 steps i xs j done => exact ⟨.refl, fun _ => done ▸ descent_sorted h⟩
  | case3 steps i xs j more short => exact ⟨.refl, by simp⟩
  | case4 steps i xs j more long ih =>
      have bounds := descent_le rank xs i (a + n - i)
      obtain ⟨round, sorted⟩ :=
        settleAt_settles (i := j) fits (by omega) (by omega) base (descent_sorted h)
      obtain ⟨rest, settled⟩ :=
        ih (by rwa [round.size_eq]) (by omega) (by omega) (round.based fits base) sorted
      exact ⟨round.trans rest, settled⟩

theorem drawn_inside (filled : 0 < n) (r : UInt64) : a ≤ drawn a n r ∧ drawn a n r < a + n := by
  have power : Nat.pow 2 n.log2 ≤ n := Nat.log2_self_le (by omega)
  have double : Nat.pow 2 (n.log2 + 1) = Nat.pow 2 n.log2 * 2 := Nat.pow_succ 2 n.log2
  have positive : 0 < Nat.pow 2 (n.log2 + 1) := Nat.pow_pos (by decide)
  have less := Nat.mod_lt r.toNat positive
  simp only [drawn]
  split <;> omega

theorem scatter_exchanged (a n : Nat) (xs : Array α) : Exchanged a (a + n) xs (scatter a n xs) := by
  simp only [scatter]
  split
  · exact .refl
  · have inside := drawn_inside (a := a) (show 0 < n by omega)
    exact (((Exchanged.refl).swap (by omega) (inside _)).swap (by omega) (inside _)).swap (by omega)
      (inside _)

theorem median_inside (rank : α → Nat) (xs : Array α) {i j k : Nat} (at_i : lo ≤ i ∧ i < hi)
    (at_j : lo ≤ j ∧ j < hi) (at_k : lo ≤ k ∧ k < hi) (swaps : Nat) :
    lo ≤ (median rank xs i j k swaps).1 ∧ (median rank xs i j k swaps).1 < hi := by
  simp only [median, orderTwo]
  grind

theorem choosePivot_inside (rank : α → Nat) (xs : Array α) (long : 12 < n) :
    a ≤ (choosePivot rank a n xs).1 ∧ (choosePivot rank a n xs).1 < a + n := by
  simp only [choosePivot, if_neg (show ¬ n < 8 by omega)]
  split
  · exact median_inside rank xs (by omega) (by omega) (by omega) _
  · refine median_inside rank xs ?_ ?_ ?_ _
    all_goals exact median_inside rank xs (by omega) (by omega) (by omega) _

theorem turn_inside (rank : α → Nat) (a : Nat) (long : 12 < n) (xs : Array α) :
    Exchanged a (a + n) xs (turn rank a n xs).xs ∧
      a ≤ (turn rank a n xs).pivot ∧ (turn rank a n xs).pivot < a + n := by
  have inside := choosePivot_inside (a := a) rank xs long
  simp only [turn]
  split
  all_goals
    rename_i chosen
    rw [chosen] at inside
  · exact ⟨.refl, inside⟩
  · exact ⟨reverseStretch_exchanged a n xs, by dsimp only; omega⟩
  · exact ⟨.refl, inside⟩

theorem prepare_prepares (balanced calm : Bool) (long : 12 < n) (fits : a + n ≤ xs.size)
    (base : Based rank a (a + n) xs) :
    let p := prepare rank balanced calm a n xs
    Exchanged a (a + n) xs p.xs ∧ (a ≤ p.pivot ∧ p.pivot < a + n) ∧
      (p.sorted → Sorted rank a (a + n) p.xs) := by
  obtain ⟨ys, start, scattered⟩ : ∃ ys, (if balanced then xs else scatter a n xs) = ys ∧
      Exchanged a (a + n) xs ys := by
    refine ⟨_, rfl, ?_⟩
    split
    · exact .refl
    · exact scatter_exchanged a n xs
  obtain ⟨turned, inside⟩ := turn_inside rank a long ys
  have both := scattered.trans turned
  simp only [prepare, start]
  split
  · obtain ⟨settled, sorted⟩ := settle_settles 5 (by rwa [both.size_eq]) (Nat.lt_succ_self a)
      (by omega) (both.based fits base) (Sorted.of_short (Nat.le_refl _))
    exact ⟨both.trans settled, inside, sorted⟩
  · exact ⟨both, inside, by simp⟩

end Patterns

section Quicksort

variable {a n : Nat}

/-- The second array is the first with a stretch sorted. -/
structure Sorts (rank : α → Nat) (lo hi : Nat) (xs ys : Array α) : Prop where
  exchanged : Exchanged lo hi xs ys
  sorted : Sorted rank lo hi ys

namespace Sorts

variable {mid : Nat}

theorem after (h : Sorts rank lo hi ys zs) (before : Exchanged lo hi xs ys) :
    Sorts rank lo hi xs zs :=
  ⟨before.trans h.exchanged, h.sorted⟩

/-- Behind a front that does not rank above the element before it, the rest is left to sort. -/
theorem of_low_front (fits : hi ≤ xs.size) (inner : 0 < lo) (order : lo < mid)
    (base : Based rank lo hi xs)
    (front : ∀ k, lo ≤ k → k < mid → rankAt rank xs k ≤ rankAt rank xs (lo - 1))
    (rest : Based rank mid hi xs → Sorts rank mid hi xs ys) : Sorts rank lo hi xs ys := by
  have ⟨exchanged, sorted⟩ := rest fun _ k low high =>
    Nat.le_trans (front (mid - 1) (by omega) (by omega)) (base inner k (by omega) high)
  have wide : Exchanged lo hi xs ys := exchanged.widen (by omega) (Nat.le_refl _)
  refine ⟨wide, fun i j low less high => ?_⟩
  by_cases early : i < mid
  · have kept := wide.based fits base inner j (by omega) high
    rw [exchanged.outside fits (by omega)] at kept ⊢
    exact Nat.le_trans (front i low early) kept
  · exact sorted i j (by omega) less high

theorem of_front_back (fits : hi ≤ xs.size) (between : lo ≤ mid ∧ mid < hi)
    (base : Based rank lo hi xs) (parted : Parted rank lo mid hi xs)
    (front : mid ≤ xs.size → Based rank lo mid xs → Sorts rank lo mid xs ys)
    (back : hi ≤ ys.size → Based rank (mid + 1) hi ys → Sorts rank (mid + 1) hi ys zs) :
    Sorts rank lo hi xs zs := by
  have first := front (by omega) (base.shorten (by omega))
  have fits' : hi ≤ ys.size := first.exchanged.size_eq ▸ fits
  have parted' := parted.exchanged_front (by omega) first.exchanged
  have second := back fits' parted'.based
  constructor
  · exact (first.exchanged.widen (by omega) (by omega)).trans
      (second.exchanged.widen (by omega) (by omega))
  · refine (parted'.exchanged_back fits' second.exchanged).sorted ?_ second.sorted
    exact second.exchanged.sorted_apart fits' (.inl (by omega)) first.sorted

theorem of_back_front (fits : hi ≤ xs.size) (between : lo ≤ mid ∧ mid < hi)
    (base : Based rank lo hi xs) (parted : Parted rank lo mid hi xs)
    (back : hi ≤ xs.size → Based rank (mid + 1) hi xs → Sorts rank (mid + 1) hi xs ys)
    (front : mid ≤ ys.size → Based rank lo mid ys → Sorts rank lo mid ys zs) :
    Sorts rank lo hi xs zs := by
  have first := back fits parted.based
  have fits' : hi ≤ ys.size := first.exchanged.size_eq ▸ fits
  have parted' := parted.exchanged_back fits first.exchanged
  have wide : Exchanged lo hi xs ys := first.exchanged.widen (by omega) (by omega)
  have second := front (by omega) ((wide.based fits base).shorten (by omega))
  constructor
  · exact wide.trans (second.exchanged.widen (by omega) (by omega))
  · refine (parted'.exchanged_front (by omega) second.exchanged).sorted second.sorted ?_
    exact second.exchanged.sorted_apart (by omega) (.inr (by omega)) first.sorted

end Sorts

theorem partitionEqual_low {pivot : Nat} (fits : a + n ≤ xs.size)
    (inside : a ≤ pivot ∧ pivot < a + n) (inner : 0 < a) (low : ¬ below rank xs (a - 1) pivot)
    {k : Nat} (left : a ≤ k) (right : k < a + (partitionEqual rank a n pivot xs).front) :
    rankAt rank (partitionEqual rank a n pivot xs).xs k ≤
      rankAt rank (partitionEqual rank a n pivot xs).xs (a - 1) := by
  have divided : Divided rank _ a n (partitionEqual rank a n pivot xs) :=
    partitionEqual_divided fits inside
  have front := divided.front k left right
  simp only [decide_eq_true_eq] at front
  simp only [below, decide_eq_true_eq, Nat.not_lt] at low
  have before : a - 1 < a ∨ a + n ≤ a - 1 := by omega
  rw [(partitionEqual_exchanged rank inside xs).outside (k := a - 1) fits before]
  exact Nat.le_trans front low

/-- However the pivot was chosen, the division around it parts the stretch. -/
theorem prepare_parted (balanced calm : Bool) (long : 12 < n) (fits : a + n ≤ xs.size)
    (base : Based rank a (a + n) xs) :
    let p := prepare rank balanced calm a n xs
    let d := partition rank a n p.pivot p.xs
    Exchanged a (a + n) xs d.xs ∧ Parted rank a (a + d.front) (a + n) d.xs ∧ d.front < n := by
  intro p d
  obtain ⟨prepared, inside, -⟩ := prepare_prepares balanced calm long fits base
  exact ⟨prepared.trans (partition_exchanged rank inside p.xs),
    partition_parted (prepared.size_eq ▸ fits) inside,
    partition_front_lt rank (by omega) a p.pivot p.xs⟩

/-- Each way to sort a stretch does, if the element in front of it does not rank above any in it. -/
theorem quicksort_sorts (limit : Nat) (balanced calm : Bool) (fits : a + n ≤ xs.size)
    (base : Based rank a (a + n) xs) :
    Sorts rank a (a + n) xs (quicksort rank limit balanced calm a n xs) := by
  fun_induction quicksort rank limit balanced calm a n xs with
  | case1 => exact ⟨insertionSort_exchanged rank _ _ _, insertionSort_sorted fits⟩
  | case2 => exact ⟨heapSort_exchanged rank _ _ _, heapSort_sorted fits⟩
  | case3 limit balanced calm a n xs long more p sorted =>
      obtain ⟨prepared, -, settled⟩ := prepare_prepares balanced calm (by omega) fits base
      exact ⟨prepared, settled sorted⟩
  | case4 limit balanced calm a n xs long more limit' p unsorted equal d ih =>
      obtain ⟨prepared, inside, -⟩ := prepare_prepares balanced calm (by omega) fits base
      have fits' : a + n ≤ p.xs.size := prepared.size_eq ▸ fits
      have whole : Exchanged a (a + n) xs d.xs :=
        prepared.trans (partitionEqual_exchanged rank inside p.xs)
      have front : 0 < d.front ∧ d.front ≤ n := partitionEqual_front rank (by omega) a p.pivot p.xs
      rw [show a + d.front + (n - d.front) = a + n by omega] at ih
      simp only [Bool.and_eq_true, decide_eq_true_eq, Bool.not_eq_true', ← Bool.not_eq_true]
        at equal
      have size := whole.size_eq
      refine Sorts.after ?_ whole
      refine .of_low_front (by omega) equal.1 (Nat.lt_add_of_pos_right front.1)
        (whole.based fits base) (fun k => ?_) (ih (by omega))
      exact partitionEqual_low fits' inside equal.1 equal.2
  | case5 limit balanced calm a n xs long more limit' p unsorted other d shorter ys ih_front _
      ih_back =>
      obtain ⟨whole, parted, front⟩ : Exchanged a (a + n) xs d.xs ∧
          Parted rank a (a + d.front) (a + n) d.xs ∧ d.front < n :=
        prepare_parted balanced calm (by omega) fits base
      rw [show a + d.front + 1 + (n - d.front - 1) = a + n by omega] at ih_back
      refine Sorts.after ?_ whole
      exact .of_front_back (whole.size_eq ▸ fits) (by omega) (whole.based fits base) parted
        ih_front ih_back
  | case6 limit balanced calm a n xs long more limit' p unsorted other d longer ys ih_back _
      ih_front =>
      obtain ⟨whole, parted, front⟩ : Exchanged a (a + n) xs d.xs ∧
          Parted rank a (a + d.front) (a + n) d.xs ∧ d.front < n :=
        prepare_parted balanced calm (by omega) fits base
      rw [show a + d.front + 1 + (n - d.front - 1) = a + n by omega] at ih_back
      refine Sorts.after ?_ whole
      exact .of_back_front (whole.size_eq ▸ fits) (by omega) (whole.based fits base) parted
        ih_back ih_front

end Quicksort

end Sorting

section

variable {α : Type} (rank : α → Nat) (l : List α)

theorem sortByRank_sorts :
    Sorting.Sorts rank 0 l.length l.toArray (sortByRank rank l).toArray := by
  have base : Sorting.Based rank 0 (0 + l.length) l.toArray := fun inner => absurd inner (by simp)
  simpa [sortByRank] using
    Sorting.quicksort_sorts (l.length.log2 + 1) true true (by simp) base

theorem sortByRank_perm : (sortByRank rank l).Perm l :=
  (sortByRank_sorts rank l).exchanged.perm.toList

theorem pairwise_sortByRank : (sortByRank rank l).Pairwise fun a b => rank a ≤ rank b := by
  have sorted := (sortByRank_sorts rank l).sorted
  have length := (sortByRank_perm rank l).length_eq
  rw [List.pairwise_iff_getElem]
  intro i j low high order
  have := sorted i j (Nat.zero_le i) order (by omega)
  simpa [Sorting.rankAt, low, high] using this

-- Elements of one rank may change places.
example : sortByRank (· / 10) [11, 12, 13, 14, 15, 16, 0, 17, 18, 19, 10, 10, 11] =
    [0, 14, 13, 11, 15, 16, 12, 17, 18, 19, 10, 10, 11] := by
  cbv

end
end KeyScript
