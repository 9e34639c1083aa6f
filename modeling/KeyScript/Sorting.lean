/-!
Sorting in place by rank, with a quicksort that looks out for patterns: stretches
that rise or fall already, many equal ranks, and pivots that divide badly. Where
elements of equal rank come to stand depends on all the others, so it shows in a
list of which only the front is used. A stretch is given by its first position
`a` and its length `n`.
-/

namespace KeyScript
namespace Sorting

variable {α : Type} (rank : α → Nat)

def rankAt (xs : Array α) (i : Nat) : Nat :=
  (xs[i]?.map rank).getD 0

def below (xs : Array α) (i j : Nat) : Bool :=
  rankAt rank xs i < rankAt rank xs j

/-- Moves the element at `a + n` to the left, past all that rank above it. -/
def sink (a : Nat) : Nat → Array α → Array α
  | 0, xs => xs
  | n + 1, xs =>
    if below rank xs (a + n + 1) (a + n) then
      sink a n (xs.swapIfInBounds (a + n + 1) (a + n))
    else xs

def insertionSort (a : Nat) : Nat → Array α → Array α
  | 0, xs => xs
  | n + 1, xs => sink rank a n (insertionSort a n xs)

/-- The child of a node of a heap that ranks highest, when it has one; nodes are counted from the
start of the stretch. -/
def highestChild (a n node : Nat) (xs : Array α) : Option Nat :=
  let left := 2 * node + 1
  if n ≤ left then none
  else if left + 1 < n && below rank xs (a + left) (a + (left + 1)) then some (left + 1)
  else some left

theorem lt_of_highestChild {a n node child : Nat} {xs : Array α}
    (h : highestChild rank a n node xs = some child) : node < child ∧ child < n := by
  simp only [highestChild] at h
  split at h
  · cases h
  · split at h <;> cases h
    · simp_all
      omega
    · omega

def siftDown (a n node : Nat) (xs : Array α) : Array α :=
  match _found : highestChild rank a n node xs with
  | none => xs
  | some child =>
    if below rank xs (a + node) (a + child) then
      siftDown a n child (xs.swapIfInBounds (a + node) (a + child))
    else xs
termination_by n - node
decreasing_by
  have := lt_of_highestChild rank _found
  omega

/-- Makes a heap of the nodes before `k`, whose children are in heaps already, and of these. -/
def heapify (a n : Nat) : Nat → Array α → Array α
  | 0, xs => xs
  | k + 1, xs => heapify a n k (siftDown rank a n k xs)

def drain (a : Nat) : Nat → Array α → Array α
  | 0, xs => xs
  | n + 1, xs => drain a n (siftDown rank a n 0 (xs.swapIfInBounds a (a + n)))

def heapSort (a n : Nat) (xs : Array α) : Array α :=
  drain rank a n (heapify rank a n ((n - 1) / 2 + 1) xs)

/-- A stretch after it was divided: the first `front` elements belong to the left. -/
structure Division (α : Type) where
  xs : Array α
  front : Nat
  /-- Whether nothing had to move. -/
  calm : Bool

def Division.oneMore (d : Division α) : Division α :=
  { d with front := d.front + 1 }

@[simp] theorem Division.oneMore_xs (d : Division α) : d.oneMore.xs = d.xs := rfl

@[simp] theorem Division.oneMore_front (d : Division α) : d.oneMore.front = d.front + 1 := rfl

/-- Brings the elements whose rank `left` accepts to the front, by exchanging them with others from
the end. -/
def divide (left : Nat → Bool) (calm : Bool) : Nat → Nat → Array α → Division α
  | _, 0, xs => ⟨xs, 0, calm⟩
  | a, 1, xs => ⟨xs, if left (rankAt rank xs a) then 1 else 0, calm⟩
  | a, n + 2, xs =>
    if left (rankAt rank xs a) then (divide left calm (a + 1) (n + 1) xs).oneMore
    else if left (rankAt rank xs (a + n + 1)) then
      (divide left false (a + 1) n (xs.swapIfInBounds a (a + n + 1))).oneMore
    else divide left calm a (n + 1) xs

theorem divide_front_le (left : Nat → Bool) (calm : Bool) (a n : Nat) (xs : Array α) :
    (divide rank left calm a n xs).front ≤ n := by
  fun_induction divide rank left calm a n xs with
  | case1 => exact Nat.le_refl 0
  | case2 => split <;> simp
  | case3 calm a n xs first ih => exact Nat.succ_le_succ ih
  | case4 calm a n xs first last ih =>
      simp only [Division.oneMore]
      omega
  | case5 calm a n xs first last ih => omega

/-- The elements that rank below the pivot in front of it, and the others behind it. -/
def partition (a n pivot : Nat) (xs : Array α) : Division α :=
  let xs := xs.swapIfInBounds a pivot
  let d := divide rank (· < rankAt rank xs a) true (a + 1) (n - 1) xs
  { d with xs := d.xs.swapIfInBounds (a + d.front) a }

/-- The elements that do not rank above the pivot in front of the others; the pivot comes first. -/
def partitionEqual (a n pivot : Nat) (xs : Array α) : Division α :=
  let xs := xs.swapIfInBounds a pivot
  (divide rank (· ≤ rankAt rank xs a) true (a + 1) (n - 1) xs).oneMore

theorem partition_front_lt {n : Nat} (filled : 0 < n) (a pivot : Nat) (xs : Array α) :
    (partition rank a n pivot xs).front < n :=
  Nat.lt_of_le_of_lt (divide_front_le rank _ _ _ _ _) (Nat.sub_one_lt_of_lt filled)

def reverseStretch : Nat → Nat → Array α → Array α
  | _, 0, xs => xs
  | _, 1, xs => xs
  | a, n + 2, xs => reverseStretch (a + 1) n (xs.swapIfInBounds a (a + n + 1))

/-- Moves the element at `i - 1` to the right, past all of the next `n` that rank below it. -/
def rise : Nat → Nat → Array α → Array α
  | _, 0, xs => xs
  | i, n + 1, xs =>
    if below rank xs i (i - 1) then rise (i + 1) n (xs.swapIfInBounds i (i - 1)) else xs

/-- The first of the next `n` positions whose element ranks below the one before it. -/
def descent (xs : Array α) : Nat → Nat → Nat
  | i, 0 => i
  | i, n + 1 => if below rank xs i (i - 1) then i else descent xs (i + 1) n

def settleAt (a n i : Nat) (xs : Array α) : Array α :=
  let xs := xs.swapIfInBounds i (i - 1)
  let xs := if 2 ≤ i - a then sink rank 0 (i - 1) xs else xs
  if 2 ≤ a + n - i then rise rank (i + 1) (a + n - (i + 1)) xs else xs

/-- Puts a few elements into their places, if the stretch is long; the answer is whether it is
sorted then. What stands before `i` is in order. -/
def settle (a n : Nat) : Nat → Nat → Array α → Array α × Bool
  | 0, _, xs => (xs, false)
  | steps + 1, i, xs =>
    let i := descent rank xs i (a + n - i)
    if i = a + n then (xs, true)
    else if n < 50 then (xs, false)
    else settle a n steps i (settleAt rank a n i xs)

def nextRandom (r : UInt64) : UInt64 :=
  let r := r ^^^ (r <<< 13)
  let r := r ^^^ (r >>> 7)
  r ^^^ (r <<< 17)

def drawn (a n : Nat) (r : UInt64) : Nat :=
  let k := r.toNat % Nat.pow 2 (n.log2 + 1)
  a + (if n ≤ k then k - n else k)

/-- Exchanges three elements of the middle with others, which are the same for all stretches of a
length. -/
def scatter (a n : Nat) (xs : Array α) : Array α :=
  if n < 8 then xs
  else
    let first := nextRandom n.toUInt64
    let second := nextRandom first
    let third := nextRandom second
    let middle := a + n / 4 * 2 - 2
    ((xs.swapIfInBounds middle (drawn a n first)).swapIfInBounds
      (middle + 1) (drawn a n second)).swapIfInBounds (middle + 2) (drawn a n third)

inductive Trend where
  | rising
  | falling
  | neither
deriving DecidableEq, Repr

/-- Two positions in the order of their ranks; `swaps` counts those that were not. -/
def orderTwo (xs : Array α) (i j swaps : Nat) : Nat × Nat × Nat :=
  if below rank xs j i then (j, i, swaps + 1) else (i, j, swaps)

def median (xs : Array α) (i j k swaps : Nat) : Nat × Nat :=
  let (i, j, swaps) := orderTwo rank xs i j swaps
  let (j, _, swaps) := orderTwo rank xs j k swaps
  let (_, j, swaps) := orderTwo rank xs i j swaps
  (j, swaps)

/-- The median at the three quarters of a stretch; in a long one, of the medians around these. -/
def choosePivot (a n : Nat) (xs : Array α) : Nat × Trend :=
  let quarter := n / 4
  let (i, j, k, swaps) : Nat × Nat × Nat × Nat :=
    if n < 50 then (a + quarter, a + quarter * 2, a + quarter * 3, 0)
    else
      let around (i swaps : Nat) := median rank xs (i - 1) i (i + 1) swaps
      let (i, swaps) := around (a + quarter) 0
      let (j, swaps) := around (a + quarter * 2) swaps
      let (k, swaps) := around (a + quarter * 3) swaps
      (i, j, k, swaps)
  let (pivot, swaps) := if n < 8 then (j, swaps) else median rank xs i j k swaps
  (pivot, if swaps = 0 then .rising else if swaps = 12 then .falling else .neither)

structure Prepared (α : Type) where
  xs : Array α
  pivot : Nat
  sorted : Bool

def turn (a n : Nat) (xs : Array α) : Prepared α :=
  match choosePivot rank a n xs with
  | (pivot, .rising) => ⟨xs, pivot, true⟩
  | (pivot, .falling) => ⟨reverseStretch a n xs, a + n - 1 - (pivot - a), true⟩
  | (pivot, .neither) => ⟨xs, pivot, false⟩

/-- Chooses a pivot and makes sure whether a stretch that seems sorted is. `balanced` and `calm`
tell how the stretch around it was divided. -/
def prepare (balanced calm : Bool) (a n : Nat) (xs : Array α) : Prepared α :=
  let p := turn rank a n (if balanced then xs else scatter a n xs)
  if balanced && calm && p.sorted then
    let (xs, sorted) := settle rank a n 5 (a + 1) p.xs
    ⟨xs, p.pivot, sorted⟩
  else ⟨p.xs, p.pivot, false⟩

/-- Sorts a stretch. After `limit` bad pivots the rest is sorted as a heap. -/
def quicksort (limit : Nat) (balanced calm : Bool) (a n : Nat) (xs : Array α) : Array α :=
  if n ≤ 12 then insertionSort rank a n xs
  else if limit = 0 then heapSort rank a n xs
  else
    let limit := if balanced then limit else limit - 1
    let p := prepare rank balanced calm a n xs
    if p.sorted then p.xs
    else if 0 < a && !below rank p.xs (a - 1) p.pivot then
      let d := partitionEqual rank a n p.pivot p.xs
      quicksort limit balanced calm (a + d.front) (n - d.front) d.xs
    else
      let d := partition rank a n p.pivot p.xs
      if d.front < n - d.front then
        let xs := quicksort limit true true a d.front d.xs
        quicksort limit (n / 8 ≤ d.front) d.calm (a + d.front + 1) (n - d.front - 1) xs
      else
        let xs := quicksort limit true true (a + d.front + 1) (n - d.front - 1) d.xs
        quicksort limit (n / 8 ≤ n - d.front) d.calm a d.front xs
termination_by n
decreasing_by
  · simp only [partitionEqual, Division.oneMore]
    omega
  · exact partition_front_lt rank (by omega) _ _ _
  · omega
  · omega
  · exact partition_front_lt rank (by omega) _ _ _

end Sorting

/-- The list sorted by rank; elements of equal rank come in no particular order. -/
def sortByRank {α : Type} (rank : α → Nat) (l : List α) : List α :=
  (Sorting.quicksort rank (l.length.log2 + 1) true true 0 l.length l.toArray).toList

end KeyScript
