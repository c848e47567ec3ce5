import GraphQL.Text.EditDistance
import Mathlib.Data.List.Infix
import Mathlib.Order.Bounds.Basic
import Mathlib.Order.MinMax

/-! What the edit distance measures. A script passes through two texts side by side and edits no
character twice; the distance is the least number of edits of a script. It is computed row by
row, and a row holds the distances of one text to another and to each of its ends. -/
namespace GraphQL.EditDistance

/-- Scripts with so many edits that lead from one text to another. -/
inductive Edits : Nat → List Char → List Char → Prop where
  | done : Edits 0 [] []
  | keep {n : Nat} {c : Char} {xs ys : List Char} (more : Edits n xs ys) :
      Edits n (c :: xs) (c :: ys)
  | insert {n : Nat} {c : Char} {xs ys : List Char} (more : Edits n xs ys) :
      Edits (n + 1) xs (c :: ys)
  | remove {n : Nat} {c : Char} {xs ys : List Char} (more : Edits n xs ys) :
      Edits (n + 1) (c :: xs) ys
  | replace {n : Nat} {c d : Char} {xs ys : List Char} (more : Edits n xs ys) :
      Edits (n + 1) (c :: xs) (d :: ys)
  | swap {n : Nat} {c d : Char} {xs ys : List Char} (more : Edits n xs ys) :
      Edits (n + 1) (c :: d :: xs) (d :: c :: ys)

variable {n : Nat} {x y : Char} {xs ys : List Char}

section Scripts

theorem inserts (ys : List Char) : Edits ys.length [] ys := by
  induction ys with
  | nil => exact .done
  | cons y ys ih => exact .insert ih

theorem removes (xs : List Char) : Edits xs.length xs [] := by
  induction xs with
  | nil => exact .done
  | cons x xs ih => exact .remove ih

theorem Edits.least {m : Nat} (some : Edits m xs ys) (other : Edits n xs ys) :
    Edits (min m n) xs ys := by
  rcases min_choice m n with least | least
  · exact least.symm ▸ some
  · exact least.symm ▸ other

/-- The distance from those of three pairs of shorter texts, where nothing is swapped. -/
def unswapped (x : Char) (xs : List Char) (y : Char) (ys : List Char) : Nat :=
  min (min (between xs (y :: ys) + 1) (between (x :: xs) ys + 1))
    (between xs ys + if x = y then 0 else 1)

theorem edits_unswapped (removed : Edits (between xs (y :: ys)) xs (y :: ys))
    (inserted : Edits (between (x :: xs) ys) (x :: xs) ys) (passed : Edits (between xs ys) xs ys) :
    Edits (unswapped x xs y ys) (x :: xs) (y :: ys) := by
  have last : Edits (between xs ys + if x = y then 0 else 1) (x :: xs) (y :: ys) := by
    split
    · next same =>
      subst same
      exact .keep passed
    · exact .replace passed
  exact (Edits.least (.remove removed) (.insert inserted)).least last

/-- There is a script with as few edits. -/
theorem edits_between (xs ys : List Char) : Edits (between xs ys) xs ys := by
  induction xs, ys using between.induct with
  | case1 ys =>
      rw [between]
      exact inserts ys
  | case2 xs some =>
      rw [between.eq_2 xs some]
      exact removes xs
  | case3 x y x' xs' y' ys' crossed removed inserted passed swapped =>
      obtain ⟨rfl, rfl, other⟩ := crossed
      rw [between.eq_3, if_pos ⟨rfl, rfl, other⟩]
      exact (edits_unswapped removed inserted passed).least (.swap swapped)
  | case4 x y x' xs' y' ys' straight removed inserted passed =>
      rw [between.eq_3, if_neg straight]
      exact edits_unswapped removed inserted passed
  | case5 x xs y ys short removed inserted passed =>
      rw [between.eq_4 x xs y ys short]
      exact edits_unswapped removed inserted passed

theorem eq_of_no_edits (edits : Edits 0 xs ys) : xs = ys := by
  generalize none : 0 = n at edits
  induction edits with
  | done => rfl
  | keep more ih => rw [ih none]
  | insert | remove | replace | swap => cases none

end Scripts

section Least

theorem between_nil (xs : List Char) : between xs [] = xs.length := by
  cases xs with
  | nil => rw [between]
  | cons x xs => rw [between.eq_2 _ (List.cons_ne_nil x xs)]

/-- There is nothing to swap with. -/
theorem between_single {xs ys : List Char} (single : xs = [] ∨ ys = []) (x y : Char) :
    between (x :: xs) (y :: ys) = unswapped x xs y ys := by
  apply between.eq_4
  rintro x' xs' y' ys' rfl rfl
  rcases single with none | none <;> cases none

theorem between_le_unswapped (x : Char) (xs : List Char) (y : Char) (ys : List Char) :
    between (x :: xs) (y :: ys) ≤ unswapped x xs y ys := by
  cases xs with
  | nil => exact (between_single (.inl rfl) x y).le
  | cons x' xs' =>
      cases ys with
      | nil => exact (between_single (.inr rfl) x y).le
      | cons y' ys' =>
          rw [between.eq_3]
          split
          · exact min_le_left _ _
          · exact le_rfl

theorem between_insert_le (xs : List Char) (y : Char) (ys : List Char) :
    between xs (y :: ys) ≤ between xs ys + 1 := by
  cases xs with
  | nil => rw [between, between, List.length_cons]
  | cons x xs =>
      exact (between_le_unswapped x xs y ys).trans ((min_le_left _ _).trans (min_le_right _ _))

theorem between_remove_le (x : Char) (xs ys : List Char) :
    between (x :: xs) ys ≤ between xs ys + 1 := by
  cases ys with
  | nil => rw [between_nil, between_nil, List.length_cons]
  | cons y ys =>
      exact (between_le_unswapped x xs y ys).trans ((min_le_left _ _).trans (min_le_left _ _))

theorem between_replace_le (x : Char) (xs : List Char) (y : Char) (ys : List Char) :
    between (x :: xs) (y :: ys) ≤ between xs ys + if x = y then 0 else 1 :=
  (between_le_unswapped x xs y ys).trans (min_le_right _ _)

theorem between_keep_le (c : Char) (xs ys : List Char) :
    between (c :: xs) (c :: ys) ≤ between xs ys := by
  simpa using between_replace_le c xs c ys

/-- Two equal characters need not be swapped. -/
theorem between_swap_le (c d : Char) (xs ys : List Char) :
    between (c :: d :: xs) (d :: c :: ys) ≤ between xs ys + 1 := by
  by_cases same : c = d
  · subst same
    have kept := (between_keep_le c (c :: xs) (c :: ys)).trans (between_keep_le c xs ys)
    exact Nat.le_succ_of_le kept
  · rw [between.eq_3, if_pos ⟨rfl, rfl, same⟩]
    exact min_le_right _ _

/-- No script has fewer edits. -/
theorem between_le (edits : Edits n xs ys) : between xs ys ≤ n := by
  induction edits with
  | done => rw [between]; rfl
  | keep more ih => exact (between_keep_le _ _ _).trans ih
  | insert more ih => exact (between_insert_le _ _ _).trans (Nat.succ_le_succ ih)
  | remove more ih => exact (between_remove_le _ _ _).trans (Nat.succ_le_succ ih)
  | @replace n xs ys c d more ih =>
      refine (between_replace_le _ _ _ _).trans (Nat.add_le_add ih ?_)
      split <;> decide
  | swap more ih => exact (between_swap_le _ _ _ _).trans (Nat.succ_le_succ ih)

end Least

/-! The rows from which the distance is computed. -/
section Rows

def rowBetween (xs ys : List Char) : Row := ys.tails.map (between xs)

theorem row_nil (xs : List Char) : rowBetween xs [] = [between xs []] := rfl

theorem row_cons (xs : List Char) (y : Char) (ys : List Char) :
    rowBetween xs (y :: ys) = between xs (y :: ys) :: rowBetween xs ys := rfl

theorem row_head (xs ys : List Char) : (rowBetween xs ys).headD 0 = between xs ys := by
  cases ys <;> rfl

theorem last_row_eq (ys : List Char) : lastRow ys = rowBetween [] ys := by
  induction ys with
  | nil => rw [row_nil, between]; rfl
  | cons y ys ih => rw [lastRow, row_cons, ih, between]; rfl

/-- A swap is looked up two rows further on. -/
theorem swapped_eq (x : Char) (xs : List Char) (y : Char) (ys : List Char) {later : Row}
    (two_on : xs ≠ [] → later = rowBetween xs.tail (y :: ys)) :
    swapped x xs.head? y ys later (unswapped x xs y ys) = between (x :: xs) (y :: ys) := by
  cases xs with
  | nil => exact (between_single (.inl rfl) x y).symm
  | cons x' xs' =>
      cases ys with
      | nil => exact (between_single (.inr rfl) x y).symm
      | cons y' ys' =>
          obtain ⟨rest, third⟩ : ∃ rest, rowBetween xs' ys' = between xs' ys' :: rest := by
            cases ys' <;> exact ⟨_, rfl⟩
          rw [two_on (List.cons_ne_nil x' xs'), between.eq_3, List.tail_cons, row_cons, row_cons,
            third]
          rfl

theorem row_of_eq (x : Char) (xs ys : List Char) {later : Row}
    (two_on : xs ≠ [] → later = rowBetween xs.tail ys) :
    rowOf x xs.head? ys (rowBetween xs ys) later = rowBetween (x :: xs) ys := by
  induction ys generalizing later with
  | nil => simp [row_nil, rowOf, between_nil]
  | cons y ys ih =>
      have next_on (some : xs ≠ []) : later.tail = rowBetween xs.tail ys := by
        rw [two_on some, row_cons, List.tail_cons]
      rw [row_cons, rowOf, ih next_on, row_head, row_head, row_cons]
      exact congrArg (· :: rowBetween (x :: xs) ys) (swapped_eq x xs y ys two_on)

theorem rows_eq (xs ys : List Char) :
    (rows ys xs).1 = rowBetween xs ys ∧ (xs ≠ [] → (rows ys xs).2 = rowBetween xs.tail ys) := by
  induction xs with
  | nil => exact ⟨last_row_eq ys, fun some => absurd rfl some⟩
  | cons x xs ih =>
      refine ⟨?_, fun _ => ih.1⟩
      rw [rows, ih.1]
      exact row_of_eq x xs ys ih.2

theorem distance_eq (xs ys : List Char) : distance xs ys = between xs ys := by
  rw [distance, (rows_eq xs ys).1, row_head]

end Rows

/-- The distance is the least number of edits of a script. -/
theorem distance_is_least (xs ys : List Char) : IsLeast {n | Edits n xs ys} (distance xs ys) := by
  rw [distance_eq]
  exact ⟨edits_between xs ys, fun _ edits => between_le edits⟩

end GraphQL.EditDistance
