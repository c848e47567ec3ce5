import GraphQL.Proofs.SuggestedTypes

/-! In which order types are suggested. An entry of the table counts how often its type is
mentioned: an object type that has the field mentions itself, and an interface as often as it
lists it. The table is sorted by these counts. They are the numbers of the object types that use
a type as long as nothing is listed twice. -/
namespace GraphQL

open Rules

deriving instance DecidableEq for Candidate

section Counting
variable {schema : Schema} {candidates : List Candidate} {field name : String}

/-- The uses that are counted for a name; a name without an entry has none. -/
def usesOf (name : String) (candidates : List Candidate) : Nat :=
  ((Named.find? name candidates).map Candidate.uses).getD 0

theorem uses_of_some {item : Candidate} (found : Named.find? name candidates = some item) :
    usesOf name candidates = item.uses := by
  rw [usesOf, found]
  rfl

theorem uses_of_none (missing : Named.find? name candidates = none) : usesOf name candidates = 0 := by
  rw [usesOf, missing]
  rfl

theorem uses_put (item : Candidate) :
    usesOf name (Named.put item candidates) =
      if item.name = name then item.uses else usesOf name candidates := by
  have entry : Named.find? name (Named.put item candidates) =
      if item.name = name then some item else Named.find? name candidates :=
    Named.find_put name item candidates
  by_cases named : item.name = name
  · rw [if_pos named] at entry ⊢
    exact uses_of_some entry
  · rw [if_neg named] at entry ⊢
    rw [usesOf, entry, usesOf]

theorem uses_of_use (used : String) :
    usesOf name (useInterface candidates used) =
      usesOf name candidates + if used = name then 1 else 0 := by
  rw [useInterface]
  cases found : Named.find? used candidates with
  | none =>
      rw [uses_put]
      by_cases named : used = name
      · subst named
        simp [uses_of_none found]
      · simp [named]
  | some item =>
      have own : item.name = used := Named.name_of_find? found
      rw [uses_put]
      by_cases named : used = name
      · subst named
        simp [uses_of_some found, own]
      · simp [named, own]

theorem uses_of_uses (used : List String) :
    usesOf name (used.foldl useInterface candidates) =
      usesOf name candidates + used.count name := by
  induction used generalizing candidates with
  | nil => rfl
  | cons first rest ih =>
      rw [List.foldl_cons, ih, uses_of_use, List.count_cons]
      by_cases named : first = name
      · simp only [named, if_true, beq_self_eq_true]
        omega
      · simp [named]

theorem uses_add (shared : hasField schema field name = true) (object : FieldsType) :
    usesOf name (addCandidates schema field candidates object) =
      if Named.has field object.fields = true then
        (if object.name = name then 1 else usesOf name candidates) + object.interfaces.count name
      else usesOf name candidates := by
  rw [addCandidates]
  by_cases has : Named.has field object.fields = true
  · rw [if_pos has, if_pos has, uses_of_uses, uses_put, List.count_filter shared]
  · rw [if_neg has, if_neg has]

end Counting

section Mentions
variable {schema : Schema} {field name : String} {object : FieldsType} {objects : List FieldsType}

/-- The names that an object type stands up for: its own, and those that it lists. -/
def FieldsType.mentions (object : FieldsType) : List String := object.name :: object.interfaces

/-- The names that are mentioned by the object types that have a field. -/
def mentioned (field : String) (objects : List FieldsType) : List String :=
  (objects.filter fun object => Named.has field object.fields).flatMap FieldsType.mentions

theorem mentioned_append (objects objects' : List FieldsType) :
    mentioned field (objects ++ objects') = mentioned field objects ++ mentioned field objects' := by
  rw [mentioned, List.filter_append, List.flatMap_append]
  rfl

theorem mentioned_single (object : FieldsType) :
    mentioned field [object] = if Named.has field object.fields = true then object.mentions else [] := by
  by_cases has : Named.has field object.fields = true <;> simp [mentioned, has]

/-- No object type mentions one that comes later. -/
def Apart (objects : List FieldsType) : Prop :=
  objects.Pairwise fun earlier later => later.name ∉ earlier.mentions

theorem unmentioned (apart : Apart (objects ++ [object])) : object.name ∉ mentioned field objects := by
  intro member
  obtain ⟨earlier, kept, mentions⟩ := List.mem_flatMap.mp member
  have before := (List.pairwise_append.mp apart).2.2 earlier (List.mem_of_mem_filter kept)
  exact before object List.mem_cons_self mentions

/-- What is counted in the end is how often a type is mentioned. -/
theorem uses_of_mentioned (apart : Apart objects) (shared : hasField schema field name = true) :
    usesOf name (objects.foldl (addCandidates schema field) []) =
      (mentioned field objects).count name := by
  induction objects using List.reverseRecOn with
  | nil => rfl
  | append_singleton objects object ih =>
      have counted := ih (List.pairwise_append.mp apart).1
      rw [List.foldl_append, List.foldl_cons, List.foldl_nil, uses_add shared, counted,
        mentioned_append, mentioned_single, List.count_append]
      by_cases has : Named.has field object.fields = true
      · rw [if_pos has, if_pos has, FieldsType.mentions, List.count_cons]
        by_cases own : object.name = name
        · -- The entry is made anew, so nothing may have been counted for it before.
          have none : (mentioned field objects).count name = 0 :=
            List.count_eq_zero.mpr (own ▸ unmentioned apart)
          simp [own, none, Nat.add_comm]
        · simp [own]
      · rw [if_neg has, if_neg has, List.count_nil, Nat.add_zero]

end Mentions

section Flags
variable {schema : Schema} {candidates : List Candidate} {field : String}
  {object : FieldsType} {objects : List FieldsType}

/-- Whether the name is that of an interface. -/
def Schema.hasInterface (schema : Schema) (name : String) : Bool :=
  ((schema.type? name).bind SchemaType.interface?).isSome

/-- Every entry says rightly whether its type is an interface. -/
def Flagged (schema : Schema) (candidates : List Candidate) : Prop :=
  ∀ item ∈ candidates, item.isInterface = schema.hasInterface item.name

theorem flagged_put {item : Candidate} (flagged : Flagged schema candidates)
    (right : item.isInterface = schema.hasInterface item.name) :
    Flagged schema (Named.put item candidates) := by
  intro other member
  rcases List.mem_cons.mp (Named.put_subset item candidates member) with rfl | old
  · exact right
  · exact flagged other old

theorem flagged_use {used : String} (flagged : Flagged schema candidates)
    (is : schema.hasInterface used = true) : Flagged schema (useInterface candidates used) := by
  rw [useInterface]
  cases found : Named.find? used candidates with
  | none => exact flagged_put flagged is.symm
  | some item =>
      have old := flagged item (Named.mem_of_find? found)
      exact flagged_put flagged old

theorem flagged_uses {used : List String} (flagged : Flagged schema candidates)
    (all : ∀ name ∈ used, schema.hasInterface name = true) :
    Flagged schema (used.foldl useInterface candidates) := by
  induction used generalizing candidates with
  | nil => exact flagged
  | cons first rest ih =>
      obtain ⟨is, all⟩ := List.forall_mem_cons.mp all
      exact ih (flagged_use flagged is) all

/-- What an object type lists is interfaces, and it is none itself. -/
structure FieldsType.ListsInterfaces (schema : Schema) (object : FieldsType) : Prop where
  own : schema.hasInterface object.name = false
  listed : ∀ name ∈ object.interfaces, schema.hasInterface name = true

theorem flagged_add (flagged : Flagged schema candidates) (lists : object.ListsInterfaces schema) :
    Flagged schema (addCandidates schema field candidates object) := by
  rw [addCandidates]
  split
  · apply flagged_uses
    · exact flagged_put flagged lists.own.symm
    · exact fun name kept => lists.listed name (List.mem_of_mem_filter kept)
  · exact flagged

theorem flagged_all (flagged : Flagged schema candidates)
    (all : ∀ object ∈ objects, object.ListsInterfaces schema) :
    Flagged schema (objects.foldl (addCandidates schema field) candidates) := by
  induction objects generalizing candidates with
  | nil => exact flagged
  | cons first rest ih =>
      obtain ⟨lists, all⟩ := List.forall_mem_cons.mp all
      exact ih (flagged_add flagged lists) all

theorem apart_of_distinct (distinct : (objects.map FieldsType.name).Nodup)
    (all : ∀ object ∈ objects, object.ListsInterfaces schema) : Apart objects := by
  apply (List.pairwise_map.mp distinct).imp_of_mem
  intro earlier later first last other mentions
  rcases List.mem_cons.mp mentions with same | listed
  · exact other same.symm
  · have is := (all earlier first).listed _ listed
    rw [(all later last).own] at is
    cases is

theorem Schema.Built.lists_interfaces (built : schema.Built)
    (member : .object object ∈ schema.types) : object.ListsInterfaces schema := by
  constructor
  · have found : schema.type? object.name = some (.object object) := built.found member
    rw [Schema.hasInterface, found]
    rfl
  · intro name listed
    obtain ⟨interface, found⟩ := (built.fits member).interfaces name listed
    have found : schema.type? name = some (.interface interface) := found
    rw [Schema.hasInterface, found]
    rfl

end Flags

section Ranks
variable {schema : Schema} {parent : SchemaType} {field name : String}

/-- More uses first, then interfaces before object types, then by name. -/
def RanksBefore (schema : Schema) (uses : String → Nat) (a b : String) : Prop :=
  uses b < uses a ∨ uses a = uses b ∧
    (schema.hasInterface a = true ∧ schema.hasInterface b = false ∨
      schema.hasInterface a = schema.hasInterface b ∧ a < b)

theorem before_iff (a b : Candidate) :
    a.before b = true ↔ b.uses < a.uses ∨ a.uses = b.uses ∧
      (a.isInterface = true ∧ b.isInterface = false ∨
        a.isInterface = b.isInterface ∧ a.name ≤ b.name) := by
  simp [Candidate.before]

theorem before_trans (a b c : Candidate) (first : a.before b = true) (second : b.before c = true) :
    a.before c = true := by
  rw [before_iff] at *
  rcases first with more | ⟨same, first⟩
  · left
    omega
  · rcases second with more | ⟨same', second⟩
    · left
      omega
    · refine .inr ⟨same.trans same', ?_⟩
      rcases first with ⟨is, no⟩ | ⟨sort, below⟩
      · rcases second with ⟨is', _⟩ | ⟨sort', _⟩
        · rw [is'] at no
          cases no
        · exact .inl ⟨is, sort' ▸ no⟩
      · rcases second with ⟨is', no'⟩ | ⟨sort', below'⟩
        · exact .inl ⟨sort.trans is', no'⟩
        · exact .inr ⟨sort.trans sort', String.le_trans below below'⟩

theorem before_total (a b : Candidate) : (a.before b || b.before a) = true := by
  rw [Bool.or_eq_true, before_iff, before_iff]
  have names := String.le_total a.name b.name
  rcases Nat.lt_trichotomy a.uses b.uses with less | same | more
  · exact .inr (.inl less)
  · cases is : a.isInterface <;> cases is' : b.isInterface <;> simp [same, names]
  · exact .inl (.inl more)

theorem before_antisymm (a b : Candidate) (first : a.before b = true)
    (second : b.before a = true) : a = b := by
  rw [before_iff] at first second
  have uses : a.uses = b.uses := by omega
  have sort : a.isInterface = b.isInterface := by
    cases is : a.isInterface <;> cases is' : b.isInterface <;> simp_all
  have below : a.name ≤ b.name := by simpa [uses, sort] using first
  have above : b.name ≤ a.name := by simpa [uses, sort] using second
  have name : a.name = b.name := String.le_antisymm below above
  cases a
  cases b
  rw [Candidate.mk.injEq]
  exact ⟨name, uses, sort⟩

theorem table_sorted (candidates : List Candidate) :
    (candidates.mergeSort Candidate.before).Pairwise fun a b => a.before b = true :=
  List.pairwise_mergeSort before_trans before_total candidates

/-- The table from which types are suggested. -/
def candidatesFor (schema : Schema) (parent : SchemaType) (field : String) : List Candidate :=
  (schema.possibleTypes parent).foldl (addCandidates schema field) []

/-- No two orders of the table are sorted. -/
theorem suggested_types_unique (abstract : parent.isAbstract = true) {sorted : List Candidate}
    (perm : (candidatesFor schema parent field).Perm sorted)
    (order : sorted.Pairwise fun a b => a.before b = true) :
    suggestedTypes schema parent field = sorted.map Candidate.name := by
  have same : (candidatesFor schema parent field).mergeSort Candidate.before = sorted :=
    ((List.mergeSort_perm _ _).trans perm).eq_of_pairwise (fun a b _ _ => before_antisymm a b)
      (table_sorted _) order
  rw [← same]
  exact suggested_types_eq abstract

theorem candidates_distinct (schema : Schema) (parent : SchemaType) (field : String) :
    Named.Distinct (candidatesFor schema parent field) := by
  have empty : Named.Distinct ([] : List Candidate) := List.nodup_nil
  exact distinct_candidates_of empty (schema.possibleTypes parent)

/-- The types that stand for a parent are object types of the schema that list interfaces. -/
theorem possible_types_list_interfaces (built : schema.Built) (member : parent ∈ schema.types) :
    ∀ object ∈ schema.possibleTypes parent, object.ListsInterfaces schema :=
  fun _ stands => built.lists_interfaces (possible_types_are_types member stands)

theorem possible_types_apart (built : schema.Built) (member : parent ∈ schema.types) :
    Apart (schema.possibleTypes parent) :=
  apart_of_distinct (distinct_possible_types built parent)
    (possible_types_list_interfaces built member)

theorem candidate_shares (built : schema.Built) (member : parent ∈ schema.types)
    {item : Candidate} (entry : item ∈ candidatesFor schema parent field) :
    hasField schema field item.name = true := by
  have listed : item.name ∈ (candidatesFor schema parent field).map Named.nameOf :=
    List.mem_map_of_mem entry
  rw [candidatesFor, mem_candidates_of, List.map_nil, or_iff_left List.not_mem_nil] at listed
  obtain ⟨object, stands, has, own | ⟨_, shared⟩⟩ := listed
  · have found := built.found (possible_types_are_types member stands)
    have found : schema.type? item.name = some (.object object) := own ▸ found
    rw [hasField, found]
    exact has
  · exact shared

theorem candidate_uses (built : schema.Built) (member : parent ∈ schema.types)
    {item : Candidate} (entry : item ∈ candidatesFor schema parent field) :
    item.uses = (mentioned field (schema.possibleTypes parent)).count item.name := by
  have found : Named.find? item.name (candidatesFor schema parent field) = some item :=
    Named.find_some_of_mem (candidates_distinct schema parent field) entry
  rw [← uses_of_some found]
  exact uses_of_mentioned (possible_types_apart built member) (candidate_shares built member entry)

theorem candidate_flag (built : schema.Built) (member : parent ∈ schema.types)
    {item : Candidate} (entry : item ∈ candidatesFor schema parent field) :
    item.isInterface = schema.hasInterface item.name :=
  flagged_all (List.forall_mem_nil _) (possible_types_list_interfaces built member) item entry

theorem ranked_by_mentions (built : schema.Built) (member : parent ∈ schema.types)
    (abstract : parent.isAbstract = true) (field : String) :
    (suggestedTypes schema parent field).Pairwise (RanksBefore schema fun name =>
      (mentioned field (schema.possibleTypes parent)).count name) := by
  rw [suggested_types_eq abstract, List.pairwise_map]
  have perm := List.mergeSort_perm (candidatesFor schema parent field) Candidate.before
  have distinct := (perm.map Named.nameOf).nodup_iff.mpr (candidates_distinct schema parent field)
  apply ((table_sorted _).and (List.pairwise_map.mp distinct)).imp_of_mem
  rintro a b first last ⟨before, other⟩
  have entry := perm.mem_iff.mp first
  have entry' := perm.mem_iff.mp last
  rw [before_iff, candidate_uses built member entry, candidate_uses built member entry',
    candidate_flag built member entry, candidate_flag built member entry'] at before
  refine before.imp_right (And.imp_right (Or.imp_right (And.imp_right fun below => ?_)))
  exact String.not_le.mp fun above => other (String.le_antisymm below above)

end Ranks

section Users
variable {schema : Schema} {parent : SchemaType} {field name : String}
  {objects : List FieldsType}

/-- The possible types of a parent that have the field, and that are the type of the name or list
it. -/
def Schema.usersOf (schema : Schema) (parent : SchemaType) (field name : String) :
    List FieldsType :=
  (schema.possibleTypes parent).filter fun object =>
    Named.has field object.fields && object.mentions.contains name

theorem count_mentioned
    (once : ∀ object ∈ objects, Named.has field object.fields = true → object.mentions.Nodup) :
    (mentioned field objects).count name = (objects.filter fun object =>
      Named.has field object.fields && object.mentions.contains name).length := by
  induction objects with
  | nil => rfl
  | cons first rest ih =>
      obtain ⟨own, once⟩ := List.forall_mem_cons.mp once
      rw [← List.singleton_append, mentioned_append, List.count_append, ih once, mentioned_single,
        List.filter_append, List.length_append]
      by_cases has : Named.has field first.fields = true
      · rw [if_pos has, (own has).count]
        by_cases mentions : name ∈ first.mentions <;> simp [has, mentions]
      · simp [has]

/-- In a schema that was built the suggested types are the possible types that have the field and
their interfaces that have it. They are ranked by how often they are mentioned: by each object
type that has the field for itself, and for each time that it lists an interface. As long as none
lists an interface twice, this is the number of the object types that use the type. -/
theorem suggested_types_are_ranked (built : schema.Built) (parent : SchemaType)
    (member : parent ∈ schema.types) (abstract : parent.isAbstract = true) (field : String) :
    (∀ name, name ∈ suggestedTypes schema parent field ↔ Suggested schema parent field name) ∧
    (suggestedTypes schema parent field).Pairwise (RanksBefore schema fun name =>
      (mentioned field (schema.possibleTypes parent)).count name) ∧
    ((∀ object ∈ schema.possibleTypes parent, object.Defines field → object.interfaces.Nodup) →
      (suggestedTypes schema parent field).Pairwise (RanksBefore schema fun name =>
        (schema.usersOf parent field name).length)) := by
  have ranked := ranked_by_mentions built member abstract field
  refine ⟨fun name => suggested_iff built member abstract, ranked, fun once => ?_⟩
  have single (name : String) : (mentioned field (schema.possibleTypes parent)).count name =
      (schema.usersOf parent field name).length := by
    apply count_mentioned
    intro object stands has
    have lists := possible_types_list_interfaces built member object stands
    apply List.nodup_cons.mpr
    refine ⟨fun listed => ?_, once object stands ((Named.has_iff field object.fields).mp has)⟩
    have is := lists.listed _ listed
    rw [lists.own] at is
    cases is
  simpa only [single] using ranked

end Users

section Repetitions

/-! A union of the object types `A` and `B`, which have the field `f` like the interfaces `M` and
`N`. `B` lists `M`, and `A` lists what is given. -/

def fieldF : FieldDefinition := ⟨.start, none, "f", [], .named ⟨.start, "Int"⟩, []⟩

def typeWithF (name : String) (listed : List String) : FieldsDefinition :=
  ⟨.start, none, name, listed.map (⟨.start, ·⟩), [], [fieldF]⟩

def queryOfUnion : FieldsDefinition :=
  ⟨.start, none, "Query", [], [], [⟨.start, none, "s", [], .named ⟨.start, "S"⟩, []⟩]⟩

def unionOfTwo : SchemaType := .union ⟨.written .start, none, "S", ["A", "B"]⟩

def schemaOfTwo (listed : List String) : Schema :=
  ⟨builtinTypes ++ [.object (.ofDefinition queryOfUnion), unionOfTwo,
      .interface (.ofDefinition (typeWithF "M" [])), .interface (.ofDefinition (typeWithF "N" [])),
      .object (.ofDefinition (typeWithF "A" listed)), .object (.ofDefinition (typeWithF "B" ["M"]))],
    builtinRules, [⟨"S", ["A", "B"]⟩, ⟨"M", ["A", "B"]⟩, ⟨"N", ["A"]⟩], "Query", none, none⟩

def definitionsOfTwo (listed : List String) : List Definition :=
  [.object queryOfUnion, .union ⟨.start, none, "S", [], [⟨.start, "A"⟩, ⟨.start, "B"⟩]⟩,
    .interface (typeWithF "M" []), .interface (typeWithF "N" []), .object (typeWithF "A" listed),
    .object (typeWithF "B" ["M"])]

theorem two_built {listed : List String}
    (makes : schemaOf [⟨definitionsOfTwo listed⟩] = .ok (schemaOfTwo listed)) :
    (schemaOfTwo listed).Built := by
  obtain ⟨draft, loads, builds⟩ := bind_ok makes
  exact ⟨_, draft, loads, builds⟩

theorem union_of_two_member (listed : List String) : unionOfTwo ∈ (schemaOfTwo listed).types :=
  List.mem_append_right _ (List.mem_cons_of_mem _ List.mem_cons_self)

/-- Both members of the union list one interface, which is suggested first. -/
theorem shared_interface_comes_first :
    let schema := schemaOfTwo ["N", "M"]
    schema.Built ∧ unionOfTwo ∈ schema.types ∧ unionOfTwo.isAbstract = true ∧
      (∀ object ∈ schema.possibleTypes unionOfTwo, object.Defines "f" → object.interfaces.Nodup) ∧
      ((∀ name, name ∈ suggestedTypes schema unionOfTwo "f" ↔ Suggested schema unionOfTwo "f" name) ∧
        (suggestedTypes schema unionOfTwo "f").Pairwise (RanksBefore schema fun name =>
          (mentioned "f" (schema.possibleTypes unionOfTwo)).count name) ∧
        (suggestedTypes schema unionOfTwo "f").Pairwise (RanksBefore schema fun name =>
          (schema.usersOf unionOfTwo "f" name).length)) ∧
      suggestedTypes schema unionOfTwo "f" = ["M", "N", "A", "B"] := by
  intro schema
  have built : schema.Built := two_built rfl
  have member := union_of_two_member ["N", "M"]
  have once : ∀ object ∈ schema.possibleTypes unionOfTwo, object.Defines "f" →
      object.interfaces.Nodup := by
    have all : ∀ object ∈ schema.possibleTypes unionOfTwo, object.interfaces.Nodup := by decide
    exact fun object stands _ => all object stands
  have listed : suggestedTypes schema unionOfTwo "f" = ["M", "N", "A", "B"] :=
    @suggested_types_unique _ _ _ rfl
      [⟨"M", 2, true⟩, ⟨"N", 1, true⟩, ⟨"A", 1, false⟩, ⟨"B", 1, false⟩] (by decide) (by decide)
  obtain ⟨names, ranked, by_users⟩ := suggested_types_are_ranked built unionOfTwo member rfl "f"
  exact ⟨built, member, rfl, once, ⟨names, ranked, by_users once⟩, listed⟩

/-- An interface that one of two types lists three times comes before the one that both list. -/
theorem repeated_interface_comes_first :
    let schema := schemaOfTwo ["M", "N", "N", "N"]
    schema.Built ∧ unionOfTwo ∈ schema.types ∧ unionOfTwo.isAbstract = true ∧
      suggestedTypes schema unionOfTwo "f" = ["N", "M", "A", "B"] ∧
      (schema.usersOf unionOfTwo "f" "N").length = 1 ∧
      (schema.usersOf unionOfTwo "f" "M").length = 2 ∧
      ¬(suggestedTypes schema unionOfTwo "f").Pairwise (RanksBefore schema fun name =>
        (schema.usersOf unionOfTwo "f" name).length) := by
  intro schema
  have listed : suggestedTypes schema unionOfTwo "f" = ["N", "M", "A", "B"] :=
    @suggested_types_unique _ _ _ rfl
      [⟨"N", 3, true⟩, ⟨"M", 2, true⟩, ⟨"A", 1, false⟩, ⟨"B", 1, false⟩] (by decide) (by decide)
  refine ⟨two_built rfl, union_of_two_member _, rfl, listed, rfl, rfl, ?_⟩
  rw [listed]
  intro ranked
  have first := List.rel_of_pairwise_cons ranked (List.mem_cons_self : "M" ∈ _)
  rcases first with more | ⟨same, _⟩
  · exact absurd more (by decide)
  · exact absurd same (by decide)

end Repetitions
end GraphQL
