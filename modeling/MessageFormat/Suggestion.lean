/-!
Suggestions for a key that is not known: known keys at a small edit distance.
-/

namespace MessageFormat.Suggestion

/-- The cells of a row of distances to the right of `left`; `above` is the row above, from the cell
above `left` on. -/
def rowFrom (c : Char) (left : Nat) : List Char → List Nat → List Nat
  | d :: ds, diagonal :: up :: above =>
      let cell := min (min (left + 1) (up + 1)) (if c = d then diagonal else diagonal + 1)
      cell :: rowFrom c cell ds (up :: above)
  | _, _ => []

def nextRow (target : List Char) (row : List Nat) (c : Char) : List Nat :=
  match row with
  | [] => []
  | first :: _ => (first + 1) :: rowFrom c (first + 1) target row

def editDistance (source target : String) : Nat :=
  let row := source.toList.foldl (nextRow target.toList) (List.range (target.length + 1))
  row.getLastD 0

/-- The greatest distance of a suggestion: short keys allow one edit, longer ones two. -/
def maxDistance (key : String) : Nat :=
  if key.length ≤ 3 then 1 else 2

def maxCount : Nat := 3

def precedes (x y : Nat × String) : Bool :=
  x.1 < y.1 || (x.1 == y.1 && decide (x.2 ≤ y.2))

def near (key : String) (known : List String) : List (Nat × String) :=
  let scored := known.map fun candidate => (editDistance key candidate, candidate)
  (scored.filter fun entry => 0 < entry.1 && entry.1 ≤ maxDistance key).mergeSort precedes

def suggestions (key : String) (known : List String) : List String :=
  ((near key known).take maxCount).map (·.2)

end MessageFormat.Suggestion
