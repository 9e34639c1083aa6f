import KeyScript.Key.Resolve
import KeyScript.Sorting
import KeyScript.Text.Distance

/-!
Corrections offered for a word that was not understood: at most three known
spellings. A spelling in which the word's letters are scattered comes before one
that differs from it by a typo or two.
-/

namespace KeyScript

/-- Every spelling a statement can start with, single characters left out. -/
def spellings : List Text :=
  verbWords ++ aliases.map (·.1) ++ renamedKeys.map (·.1) ++
    (Key.names.filter fun name => 1 < name.length).map Text.upper

/-- The spellings, each once and in byte order. -/
def candidates : List Text :=
  spellings.eraseDups.mergeSort

def maxSuggestions : Nat := 3

def maxTypos : Nat := 2

def foldedChars (t : Text) : List Char :=
  t.chars.map lowerChar

def scored (word : List Char) (known : List Text) : List (Text × Nat) :=
  known.map fun c => (c, editDistance word c.chars)

def offered (entries : List (Text × Nat)) : List Text :=
  (entries.take maxSuggestions).map (·.1)

/-- Up to three known spellings close to a word, best first. Equally near ones come in byte order
after typos only; those with scattered letters come as the sort leaves them. -/
def suggest (word : Text) : List Text :=
  if word.isEmpty then []
  else
    let folded := foldedChars word
    let matched := candidates.filter fun c => isScattered folded (foldedChars c)
    if matched.isEmpty then
      let near := (scored word.upper.chars candidates).filter fun entry => entry.2 ≤ maxTypos
      offered (near.mergeSort fun a b => a.2 ≤ b.2)
    else offered (sortByRank (·.2) (scored word.chars matched))

end KeyScript
