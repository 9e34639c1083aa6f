/-!
Closeness of spellings: the least number of insertions, deletions and
replacements between two lists, and whether one list is scattered in another.
-/

namespace KeyScript

variable {α : Type} [DecidableEq α]

/-- The rest of a row of the distance table, from the value to its left and the row above it
(the value diagonally above first). -/
def fillRow (a : α) (left diagonal : Nat) : List α → List Nat → List Nat
  | b :: bs, above :: row =>
    let here := min (min (left + 1) (above + 1)) (if a = b then diagonal else diagonal + 1)
    here :: fillRow a here above bs row
  | _, _ => []

def nextRow (bs : List α) (row : List Nat) (a : α) : List Nat :=
  match row with
  | [] => []
  | first :: rest => (first + 1) :: fillRow a (first + 1) first bs rest

def editDistance (as bs : List α) : Nat :=
  (as.foldl (nextRow bs) (List.range (bs.length + 1))).getLastD 0

/-- Whether the elements of the first list stand in the second in the same order. -/
def isScattered : List α → List α → Bool
  | [], _ => true
  | _ :: _, [] => false
  | a :: as, b :: bs => if a = b then isScattered as bs else isScattered (a :: as) bs

end KeyScript
