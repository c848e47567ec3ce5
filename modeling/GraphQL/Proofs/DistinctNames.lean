import GraphQL.Schema.Named

/-! Lists in which no name is given twice. There a look-up finds every item by its name,
whatever the order of the items is, and such lists hold the same things as soon as one is
a rearrangement of the other. -/
namespace GraphQL.Named

variable {α : Type} [Named α] {name : String} {items items' : List α} {item : α}

def Distinct (items : List α) : Prop := (items.map nameOf).Nodup

section Lookup

theorem nodup_append_single {Item : Type} {items : List Item} {item : Item} :
    (items ++ [item]).Nodup ↔ items.Nodup ∧ item ∉ items := by
  rw [List.nodup_append]
  constructor
  · rintro ⟨nodup, _, apart⟩
    exact ⟨nodup, fun member => apart _ member _ List.mem_cons_self rfl⟩
  · rintro ⟨nodup, fresh⟩
    refine ⟨nodup, List.nodup_cons.mpr ⟨List.not_mem_nil, List.nodup_nil⟩, ?_⟩
    rintro _ member _ single rfl
    exact fresh (List.mem_singleton.mp single ▸ member)

theorem find_none_iff : find? name items = none ↔ name ∉ items.map nameOf := by
  simp only [find?, List.find?_eq_none, List.mem_map, beq_iff_eq, not_exists, not_and]

theorem find_some_of_mem (distinct : Distinct items) (member : item ∈ items) :
    find? (nameOf item) items = some item := by
  induction items with
  | nil => cases member
  | cons first rest ih =>
      obtain ⟨fresh, distinct⟩ := List.nodup_cons.mp distinct
      rcases List.mem_cons.mp member with rfl | later
      · exact List.find?_cons_of_pos (beq_self_eq_true _)
      · have other : nameOf first ≠ nameOf item := by
          intro same
          exact fresh (same ▸ List.mem_map_of_mem later)
        rw [find?, List.find?_cons_of_neg (by simpa using other)]
        exact ih distinct later

theorem find_some_iff (distinct : Distinct items) :
    find? name items = some item ↔ item ∈ items ∧ nameOf item = name := by
  constructor
  · exact fun found => ⟨mem_of_find? found, name_of_find? found⟩
  · rintro ⟨member, rfl⟩
    exact find_some_of_mem distinct member

theorem distinct_append_left (distinct : Distinct (items ++ items')) : Distinct items := by
  rw [Distinct, List.map_append] at distinct
  exact (List.nodup_append.mp distinct).1

theorem distinct_append_single :
    Distinct (items ++ [item]) ↔ Distinct items ∧ find? (nameOf item) items = none := by
  rw [Distinct, List.map_append, find_none_iff]
  exact nodup_append_single

end Lookup

section Order

theorem distinct_perm (perm : items.Perm items') : Distinct items ↔ Distinct items' :=
  (perm.map nameOf).nodup_iff

theorem find_perm (distinct : Distinct items) (perm : items.Perm items') (name : String) :
    find? name items = find? name items' := by
  apply Option.ext
  intro item
  rw [find_some_iff distinct, find_some_iff ((distinct_perm perm).mp distinct), perm.mem_iff]

theorem has_perm (perm : items.Perm items') (name : String) :
    has name items = has name items' := by
  rw [Bool.eq_iff_iff, has_iff, has_iff]
  constructor
  · rintro ⟨item, member, named⟩
    exact ⟨item, perm.mem_iff.mp member, named⟩
  · rintro ⟨item, member, named⟩
    exact ⟨item, perm.mem_iff.mpr member, named⟩

theorem same_as_of_find {same : α → α → Bool} (distinct : Distinct items)
    (distinct' : Distinct items')
    (names : ∀ name, name ∈ items.map nameOf ↔ name ∈ items'.map nameOf)
    (each : ∀ item item', find? (nameOf item) items = some item →
      find? (nameOf item) items' = some item' → same item item' = true) :
    sameAs same items items' = true := by
  rw [sameAs, Bool.and_eq_true, beq_iff_eq, List.all_eq_true]
  constructor
  · have perm := (List.perm_ext_iff_of_nodup distinct distinct').mpr names
    simpa using perm.length_eq
  · intro item member
    have own := find_some_of_mem distinct member
    cases found : find? (nameOf item) items' with
    | none =>
        have known := (names (nameOf item)).mp (List.mem_map_of_mem member)
        exact absurd known (find_none_iff.mp found)
    | some item' => exact each item item' own found

/-- Rearranged lists are compared item by item with themselves. -/
theorem same_as_perm (same : α → α → Bool) (distinct : Distinct items)
    (perm : items.Perm items') :
    sameAs same items items' = items.all fun item => same item item := by
  rw [sameAs, perm.length_eq, beq_self_eq_true, Bool.true_and, Bool.eq_iff_iff,
    List.all_eq_true, List.all_eq_true]
  refine forall₂_congr fun item member => ?_
  rw [← find_perm distinct perm, find_some_of_mem distinct member]

end Order

/-! A list that is filled by names has no name twice. -/
section Filling

theorem mem_names_put (name : String) (item : α) (items : List α) :
    name ∈ (put item items).map nameOf ↔ name = nameOf item ∨ name ∈ items.map nameOf := by
  induction items with
  | nil => simp [put]
  | cons first rest ih =>
      rw [put]
      split
      · next same =>
        have named : nameOf first = nameOf item := by simpa using same
        simp [named]
      · rw [List.map_cons, List.mem_cons, ih, List.map_cons, List.mem_cons]
        constructor
        · rintro (here | new | later)
          · exact .inr (.inl here)
          · exact .inl new
          · exact .inr (.inr later)
        · rintro (new | here | later)
          · exact .inr (.inl new)
          · exact .inl here
          · exact .inr (.inr later)

theorem put_subset (item : α) (items : List α) : put item items ⊆ item :: items := by
  induction items with
  | nil => exact List.Subset.refl _
  | cons first rest ih =>
      rw [put]
      split
      · exact List.cons_subset_cons item (List.subset_cons_self first rest)
      · intro other member
        rcases List.mem_cons.mp member with rfl | later
        · exact List.mem_cons_of_mem _ List.mem_cons_self
        · exact List.cons_subset_cons item (List.subset_cons_self first rest) (ih later)

theorem find_put (name : String) (item : α) (items : List α) :
    find? name (put item items) = if nameOf item = name then some item else find? name items := by
  induction items with
  | nil => by_cases named : nameOf item = name <;> simp [put, find?, named]
  | cons first rest ih =>
      rw [put]
      by_cases same : nameOf first = nameOf item
      · by_cases named : nameOf item = name <;> simp [find?, same, named]
      · rw [if_neg (by simpa using same)]
        by_cases here : nameOf first = name
        · have other : nameOf item ≠ name := fun named => same (here.trans named.symm)
          simp [find?, here, other]
        · simpa [find?, here] using ih

theorem distinct_put (distinct : Distinct items) (item : α) : Distinct (put item items) := by
  induction items with
  | nil => exact List.nodup_cons.mpr ⟨List.not_mem_nil, List.nodup_nil⟩
  | cons first rest ih =>
      obtain ⟨fresh, distinct⟩ := List.nodup_cons.mp distinct
      rw [put]
      split
      · next same =>
        have named : nameOf first = nameOf item := by simpa using same
        exact List.nodup_cons.mpr ⟨named ▸ fresh, distinct⟩
      · next other =>
        apply List.nodup_cons.mpr
        refine ⟨?_, ih distinct⟩
        rw [mem_names_put]
        rintro (same | member)
        · exact other (beq_iff_eq.mpr same)
        · exact fresh member

theorem of_list_subset (items : List α) : ofList items ⊆ items := by
  have filled (table : List α) :
      items.foldl (fun table item => put item table) table ⊆ table ++ items := by
    induction items generalizing table with
    | nil => exact List.subset_append_left table []
    | cons item rest ih =>
        intro other member
        rcases List.mem_append.mp (ih (put item table) member) with early | late
        · rcases List.mem_cons.mp (put_subset item table early) with rfl | old
          · exact List.mem_append_right table List.mem_cons_self
          · exact List.mem_append_left _ old
        · exact List.mem_append_right table (List.mem_cons_of_mem item late)
  exact filled []

theorem distinct_of_list (items : List α) : Distinct (ofList items) := by
  have filled (table : List α) (distinct : Distinct table) :
      Distinct (items.foldl (fun table item => put item table) table) := by
    induction items generalizing table with
    | nil => exact distinct
    | cons item rest ih => exact ih (put item table) (distinct_put distinct item)
  exact filled [] List.nodup_nil

end Filling

end GraphQL.Named
