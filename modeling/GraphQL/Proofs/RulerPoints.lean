import GraphQL.Text.Characters
import GraphQL.Text.Ruler

/-! The ruler finds a point again from its place, up to characters that take no column:
those in front of the point share its place, and the first of them is found. -/
namespace GraphQL.Ruler

variable {c : Char} {before last rest : List Char}

def widths : List Char → Nat
  | [] => 0
  | c :: passed => width c + widths passed

theorem widths_eq_zero_iff : widths before = 0 ↔ ∀ c ∈ before, width c = 0 := by
  induction before with
  | nil => simp [widths]
  | cons c passed ih => rw [widths, Nat.add_eq_zero_iff, ih, List.forall_mem_cons]

theorem ignored_of_no_width (narrow : width c = 0) : Text.isIgnored c = true := by
  rw [width] at narrow
  split at narrow
  · cases narrow
  · split at narrow
    · next wide =>
      simp only [Bool.or_eq_true, beq_iff_eq] at wide
      rcases wide with rfl | mark
      · decide
      · simp [Text.isIgnored, mark]
    · cases narrow

section Columns

/-- Counting on from a column, the point behind characters of one line is found, or the
first of the characters without width in front of it. -/
theorem seek_column (line : '\n' ∉ before) (column : Nat) (c : Char) (rest : List Char) :
    ∃ narrow, (∀ d ∈ narrow, width d = 0) ∧
      seekColumn (column + widths before) column (before ++ c :: rest) =
        some (narrow ++ c :: rest) := by
  induction before generalizing column with
  | nil =>
      refine ⟨[], nofun, ?_⟩
      rw [List.nil_append, seekColumn]
      exact if_pos rfl
  | cons d before ih =>
      obtain ⟨first, line⟩ : '\n' ≠ d ∧ '\n' ∉ before := by simpa using line
      -- Where the column is reached already, all that is still to pass takes none.
      by_cases reached : widths (d :: before) = 0
      · refine ⟨d :: before, ?_, ?_⟩
        · exact widths_eq_zero_iff.mp reached
        · rw [List.cons_append, seekColumn, reached]
          exact if_pos rfl
      · obtain ⟨narrow, flat, found⟩ := ih line (column + width d)
        refine ⟨narrow, flat, ?_⟩
        rw [List.cons_append, seekColumn, if_neg (by omega), if_neg (by simpa using Ne.symm first),
          widths, ← Nat.add_assoc]
        exact found

end Columns

section Lines

theorem fold_in_line (place : Position) (line : '\n' ∉ before) :
    before.foldl next place = ⟨place.line, place.column + widths before⟩ := by
  induction before generalizing place with
  | nil => rfl
  | cons d before ih =>
      obtain ⟨first, line⟩ : '\n' ≠ d ∧ '\n' ∉ before := by simpa using line
      have stays : next place d = ⟨place.line, place.column + width d⟩ := by
        rw [next, if_neg (by simpa using Ne.symm first)]
      rw [List.foldl_cons, ih _ line, stays, widths, Nat.add_assoc]

/-- The lines that were passed, and the characters that were passed on the last one. -/
theorem passed_lines (line column : Nat) (before : List Char) :
    ('\n' ∉ before ∧ before.foldl next ⟨line, column⟩ = ⟨line, column + widths before⟩) ∨
    ∃ lines last, '\n' ∉ last ∧
      before.foldl next ⟨line, column⟩ = ⟨line + (lines + 1), 1 + widths last⟩ ∧
      ∀ rest, dropLines (lines + 1) (before ++ rest) = some (last ++ rest) := by
  induction before generalizing line column with
  | nil => exact .inl ⟨List.not_mem_nil, rfl⟩
  | cons d before ih =>
      rw [List.foldl_cons]
      -- A line feed starts the columns anew, so only the last line counts for them.
      by_cases ends : d = '\n'
      · subst ends
        apply Or.inr
        rcases ih (line + 1) 1 with ⟨same, counted⟩ | ⟨lines, last, same, counted, dropped⟩
        · refine ⟨0, before, same, counted, fun rest => ?_⟩
          rw [List.cons_append, dropLines, if_pos (by decide), dropLines]
        · refine ⟨lines + 1, last, same, ?_, fun rest => ?_⟩
          · rw [next, if_pos (by decide), counted]
            congr 1
            omega
          · rw [List.cons_append, dropLines, if_pos (by decide)]
            exact dropped rest
      · have stays : next ⟨line, column⟩ d = ⟨line, column + width d⟩ := by
          rw [next, if_neg (by simpa using ends)]
        rw [stays]
        rcases ih line (column + width d) with ⟨same, counted⟩ | ⟨lines, last, same, counted, dropped⟩
        · apply Or.inl
          refine ⟨by simp [same, Ne.symm ends], ?_⟩
          rw [counted, widths, Nat.add_assoc]
        · refine .inr ⟨lines, last, same, counted, fun rest => ?_⟩
          rw [List.cons_append, dropLines, if_neg (by simpa using ends)]
          exact dropped rest

end Lines

theorem place_of_append (before rest : List Char) :
    placeOf (before ++ rest) rest = before.foldl next .start := by
  rw [placeOf, placeAfter, List.length_append, Nat.add_sub_cancel, List.take_left]

theorem rest_at_place_of (before : List Char) (c : Char) (rest : List Char) :
    ∃ narrow, (∀ d ∈ narrow, width d = 0) ∧
      restAt (before ++ c :: rest) (placeOf (before ++ c :: rest) (c :: rest)) =
        some (narrow ++ c :: rest) := by
  rw [place_of_append]
  rcases passed_lines 1 1 before with ⟨same, counted⟩ | ⟨lines, last, same, counted, dropped⟩
  · obtain ⟨narrow, flat, found⟩ := seek_column same 1 c rest
    refine ⟨narrow, flat, ?_⟩
    rw [Position.start, counted, restAt]
    show (dropLines 0 (before ++ c :: rest)).bind _ = _
    rw [dropLines, Option.bind_some]
    exact found
  · obtain ⟨narrow, flat, found⟩ := seek_column same 1 c rest
    refine ⟨narrow, flat, ?_⟩
    rw [Position.start, counted, restAt, Nat.add_comm 1]
    show (dropLines (lines + 1) (before ++ c :: rest)).bind _ = _
    rw [dropped, Option.bind_some]
    exact found

end GraphQL.Ruler
