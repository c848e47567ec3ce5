/-! How many edits lead from one text to another, where an edit inserts, removes or
replaces a character or swaps two neighbours, and no swapped characters are edited
again. -/
namespace GraphQL.EditDistance

/-- The distance by its rules, as one would compute it by hand. -/
def between : List Char → List Char → Nat
  | [], ys => ys.length
  | xs, [] => xs.length
  | x :: xs, y :: ys =>
      let step := min (min (between xs (y :: ys) + 1) (between (x :: xs) ys + 1))
        (between xs ys + if x = y then 0 else 1)
      match xs, ys with
      | x' :: xs', y' :: ys' =>
          if x = y' ∧ x' = y ∧ x ≠ y then min step (between xs' ys' + 1) else step
      | _, _ => step
termination_by xs ys => xs.length + ys.length

abbrev Row := List Nat

def lastRow : List Char → Row
  | [] => [0]
  | _ :: ys => (ys.length + 1) :: lastRow ys

def swapped (x : Char) (next? : Option Char) (y : Char) (ys : List Char) (later : Row)
    (step : Nat) : Nat :=
  match next?, ys with
  | some x', y' :: _ =>
      if x = y' ∧ x' = y ∧ x ≠ y then
        match later with
        | _ :: _ :: distance :: _ => min step (distance + 1)
        | _ => step
      else step
  | _, _ => step

/-- The row of a text from the row of the text without its first character, and from the
row without its first two, in which a swap is looked up. -/
def rowOf (x : Char) (next? : Option Char) : List Char → Row → Row → Row
  | y :: ys, above :: aboves, later =>
      let row := rowOf x next? ys aboves later.tail
      let step := min (min (above + 1) (row.headD 0 + 1))
        (aboves.headD 0 + if x = y then 0 else 1)
      swapped x next? y ys later step :: row
  | _, above, _ => above.map (· + 1)

def rows (ys : List Char) : List Char → Row × Row
  | [] => (lastRow ys, [])
  | x :: xs =>
      let below := rows ys xs
      (rowOf x xs.head? ys below.1 below.2, below.1)

def distance (xs ys : List Char) : Nat := (rows ys xs).1.headD 0

end GraphQL.EditDistance
