import GraphQL.Proofs.RulerPoints

/-! Places and points. A place that leads to a point is the place of that point; a point has a
place that leads back, to itself or to the first of the characters without width that stand
directly in front of it. -/
namespace GraphQL.Ruler

variable {text before front narrow last rest line point : List Char} {c : Char}

section Places

theorem width_eq_zero_iff : width c = 0 ↔ c = '\r' ∨ c = '\ufeff' := by
  rw [width]
  by_cases tab : c = '\t'
  · subst tab
    decide
  · by_cases flat : c = '\r' ∨ c = '\ufeff'
    · simp [tab, Text.isByteOrderMark, flat]
    · simp [tab, Text.isByteOrderMark, flat]

theorem line_found {lines : Nat} (place : Position) (starts : lines = 0 → place.column = 1)
    (found : dropLines lines text = some line) :
    ∃ before, text = before ++ line ∧ before.foldl next place = ⟨place.line + lines, 1⟩ := by
  induction lines, text using dropLines.induct generalizing place with
  | case1 text =>
      obtain rfl : text = line := by simpa [dropLines] using found
      exact ⟨[], rfl, by simp [← starts rfl]⟩
  | case2 lines => simp [dropLines] at found
  | case3 lines c rest feed ih =>
      rw [dropLines, if_pos feed] at found
      have turns : next place c = ⟨place.line + 1, 1⟩ := by rw [next, if_pos feed]
      obtain ⟨before, rfl, counted⟩ := ih ⟨place.line + 1, 1⟩ (fun _ => rfl) found
      refine ⟨c :: before, rfl, ?_⟩
      rw [List.foldl_cons, turns, counted, Nat.add_right_comm, Nat.add_assoc]
  | case4 lines c rest other ih =>
      rw [dropLines, if_neg other] at found
      obtain ⟨before, rfl, counted⟩ :=
        ih (next place c) (fun none => absurd none (Nat.succ_ne_zero lines)) found
      refine ⟨c :: before, rfl, ?_⟩
      rw [List.foldl_cons, counted, next, if_neg other]

theorem column_found {wanted column : Nat} (found : seekColumn wanted column line = some point) :
    point ≠ [] ∧ ∃ before, line = before ++ point ∧ '\n' ∉ before ∧
      wanted = column + widths before := by
  induction line generalizing column with
  | nil => simp [seekColumn] at found
  | cons c rest ih =>
      rw [seekColumn] at found
      split at found
      · next reached =>
        cases found
        exact ⟨List.cons_ne_nil c rest, [], rfl, List.not_mem_nil, reached.symm⟩
      · split at found
        · cases found
        · next other =>
          obtain ⟨some, before, rfl, same, counted⟩ := ih found
          refine ⟨some, c :: before, rfl, ?_, ?_⟩
          · simpa [same] using fun feed => other (by simp [← feed])
          · rw [counted, widths, Nat.add_assoc]

theorem place_of_rest_at {place : Position} (found : restAt text place = some point) :
    point ≠ [] ∧ point <:+ text ∧ placeOf text point = place := by
  obtain ⟨_ | lines, column⟩ := place
  · cases found
  · obtain ⟨line, dropped, sought⟩ := Option.bind_eq_some_iff.mp found
    obtain ⟨before, rfl, passed⟩ := line_found .start (fun _ => rfl) dropped
    obtain ⟨some, front, rfl, same, counted⟩ := column_found sought
    refine ⟨some, ⟨before ++ front, List.append_assoc _ _ _⟩, ?_⟩
    have column_eq : column = 1 + widths front := counted
    rw [← List.append_assoc, place_of_append, List.foldl_append, passed, fold_in_line _ same,
      column_eq, Position.start, Nat.add_comm lines]

end Places

section Points

/-- Characters that take no column. -/
def Narrow (passed : List Char) : Prop := ∀ c ∈ passed, c = '\r' ∨ c = '\ufeff'

theorem narrow_iff : Narrow narrow ↔ ∀ c ∈ narrow, width c = 0 :=
  forall₂_congr fun _ _ => width_eq_zero_iff.symm

theorem fold_narrow (place : Position) (flat : Narrow narrow) : narrow.foldl next place = place := by
  have line : '\n' ∉ narrow := fun feed => absurd (flat '\n' feed) (by decide)
  rw [fold_in_line place line, widths_eq_zero_iff.mpr (narrow_iff.mp flat), Nat.add_zero]

theorem place_of_narrow (front rest : List Char) (flat : Narrow narrow) :
    placeOf (front ++ (narrow ++ rest)) rest =
      placeOf (front ++ (narrow ++ rest)) (narrow ++ rest) := by
  rw [place_of_append, ← List.append_assoc, place_of_append, List.foldl_append, fold_narrow _ flat]

/-- Nothing but characters without width stands between the other point and this one. -/
def Adjoins (point other : List Char) : Prop := ∃ narrow, Narrow narrow ∧ other = narrow ++ point

theorem Adjoins.place {other : List Char} (adjoins : Adjoins point other) (suffix : other <:+ text) :
    placeOf text other = placeOf text point := by
  obtain ⟨narrow, flat, rfl⟩ := adjoins
  obtain ⟨front, rfl⟩ := suffix
  exact (place_of_narrow front point flat).symm

theorem rest_at_adjoins (some : point ≠ []) (suffix : point <:+ text) :
    ∃ first, restAt text (placeOf text point) = Option.some first ∧ Adjoins point first := by
  obtain ⟨c, rest, rfl⟩ := List.exists_cons_of_ne_nil some
  obtain ⟨before, rfl⟩ := suffix
  obtain ⟨narrow, flat, found⟩ := rest_at_place_of before c rest
  exact ⟨narrow ++ c :: rest, found, narrow, narrow_iff.mpr flat, rfl⟩

/-- A place that leads to a point of a text is the place of that point. Every point in front of
the end has a place that leads back, to the first point from which on there are only carriage
returns and byte order marks in front of it. -/
theorem places_lead_back (text : List Char) :
    (∀ place point, restAt text place = some point →
      point ≠ [] ∧ point <:+ text ∧ placeOf text point = place) ∧
    ∀ point, point ≠ [] → point <:+ text →
      ∃ first, restAt text (placeOf text point) = some first ∧ first <:+ text ∧
        Adjoins point first ∧ ∀ other, other <:+ text → Adjoins point other → other <:+ first := by
  refine ⟨fun place point => place_of_rest_at, ?_⟩
  intro point some suffix
  obtain ⟨first, found, adjoins⟩ := rest_at_adjoins some suffix
  refine ⟨first, found, (place_of_rest_at found).2.1, adjoins, ?_⟩
  intro other within beside
  have not_end : other ≠ [] := by
    obtain ⟨narrow, _, rfl⟩ := beside
    exact List.append_ne_nil_of_right_ne_nil narrow some
  -- The other point has the same place, so what its place leads to, the place of this one does.
  obtain ⟨first', found', narrow, _, same⟩ := rest_at_adjoins not_end within
  rw [beside.place within, found] at found'
  cases found'
  exact ⟨narrow, same.symm⟩

/-- The place of a brace behind a tab and two characters without width leads to the first of
these. -/
theorem brace_behind_narrow :
    let text := ['{', '\r', '\n', '\t', 'i', 'd', '\r', '\ufeff', '}']
    let first := ['\r', '\ufeff', '}']
    restAt text ⟨2, 11⟩ = some first ∧ ['}'] <:+ text ∧
      (first ≠ [] ∧ first <:+ text ∧ placeOf text first = ⟨2, 11⟩) ∧
      ∃ found, restAt text (placeOf text ['}']) = some found ∧ found <:+ text ∧
        Adjoins ['}'] found ∧ (∀ other, other <:+ text → Adjoins ['}'] other → other <:+ found) ∧
        found = first := by
  intro text first
  have reached : restAt text ⟨2, 11⟩ = some first := by decide
  have suffix : ['}'] <:+ text := ⟨['{', '\r', '\n', '\t', 'i', 'd', '\r', '\ufeff'], rfl⟩
  obtain ⟨found, leads, within, adjoins, least⟩ :=
    (places_lead_back text).2 ['}'] (List.cons_ne_nil _ _) suffix
  refine ⟨reached, suffix, (places_lead_back text).1 _ _ reached, found, leads, within, adjoins,
    least, ?_⟩
  have same : placeOf text ['}'] = ⟨2, 11⟩ := by decide
  rw [same, reached] at leads
  exact (Option.some.inj leads).symm

end Points
end GraphQL.Ruler
