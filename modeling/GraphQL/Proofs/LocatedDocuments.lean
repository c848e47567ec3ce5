import GraphQL.Proofs.BuiltSchemas
import GraphQL.Proofs.LocatedTypes
import GraphQL.Proofs.PlainTexts
import Mathlib.Data.List.Forall2

/-! Where the types of whole documents stand. The entries of a schema definition are found
again one by one, by the words in front of them; with them, every type of a document that is
read from a text in step stands at its own token. -/
namespace GraphQL

section Schemas
namespace Grammar
open GraphQL.Parser Text Header

variable {text : List Char} {front : Front text}

/-- What is found for an entry: its word, and a point that the type stands at. -/
structure EntryFound (text : List Char) (entry : String × NamedType)
    (found : String × List Char) : Prop where
  word : found.1 = entry.1
  stands : ∀ enclosing, entry.2.locate text enclosing (some found.2) = entry.2

theorem root_entry_reads (front : Front text) :
    Reads rootEntry front fun entry next => ∃ colon type, front.Takes (.name entry.1) colon ∧
      colon.Takes (.punct ':') type ∧ NameStands entry.2 type ∧
      type.Takes (.name entry.2.name) next := by
  apply name_reads.bind
  intro word colon takes_word
  apply punct_reads.bind
  intro _ start takes_colon
  apply (named_type_reads start).bind
  rintro type next ⟨stands, takes_type⟩
  exact .pure ⟨colon, start, takes_word, takes_colon, stands, takes_type⟩

theorem entries_until_read (room : Nat) (front : Front text) :
    Reads (repeatUntil '}' rootEntry room) front fun entries _ =>
      ∀ more, (skipIgnored front.rest).length ≤ more →
        List.Forall₂ (EntryFound text) entries (rootEntries more (skipIgnored front.rest)) := by
  induction room generalizing front with
  | zero => exact fail_reads
  | succ room ih =>
      apply accept_reads.bind
      rintro closed inside (⟨rfl, closes⟩ | ⟨rfl, rfl, _⟩)
      · apply Reads.pure
        intro more _
        cases more with
        | zero => exact .nil
        | succ more =>
            -- No name starts with the bracket, so that no further entry is found.
            have unnamed : step front.rest .name = none := by
              rw [step_name, closes.punct]
              rfl
            rw [rootEntries, Front.steps_skip, steps, unnamed]
            exact .nil
      · apply (root_entry_reads front).bind
        rintro entry next ⟨colon, start, takes_word, takes_colon, stands, takes_type⟩
        apply (ih next).bind
        intro entries last all
        apply Reads.pure
        intro more enough
        have shorter := Nat.lt_trans takes_type.shortens
          (Nat.lt_trans takes_colon.shortens takes_word.shortens)
        obtain ⟨more, rfl⟩ : ∃ fewer, more = fewer + 1 := ⟨more - 1, by omega⟩
        have passed : steps (skipIgnored front.rest) [.name, .punct ':'] =
            some (skipIgnored start.rest) := by
          rw [Front.steps_skip, takes_word.leads_name, takes_colon.leads_punct, steps]
        have named : step (skipIgnored start.rest) .name = some next.rest := by
          rw [Front.step_skip]
          exact takes_type.name.1
        rw [rootEntries, passed]
        dsimp only
        rw [named]
        exact .cons ⟨takes_word.name.2, stands⟩ (all more (by omega))

theorem entries_read (front : Front text) :
    Reads (itemsUntil '}' rootEntry) front fun entries _ =>
      List.Forall₂ (EntryFound text) entries
        (rootEntries (skipIgnored front.rest).length (skipIgnored front.rest)) := by
  apply get_reads.bind
  rintro lexemes _ ⟨rfl, rfl⟩
  apply (entries_until_read _ front).mono
  intro entries next all
  exact all _ (Nat.le_refl _)

theorem entry_found {entries : List (String × NamedType)} {found : List (String × List Char)}
    {kind : OperationKind} {type : NamedType}
    (all : List.Forall₂ (EntryFound text) entries found)
    (single : (entriesOf kind entries).length ≤ 1) (member : type ∈ entriesOf kind entries)
    (enclosing : Position) : type.locate text enclosing (rootPoint found kind) = type := by
  -- Only one entry has the word of this kind, so the first that is found is the one for it.
  have kept : List.Forall₂ (EntryFound text) (entries.filter fun entry => entry.1 == kind.name)
      (found.filter fun entry => entry.1 == kind.name) := by
    refine List.rel_filter (fun entry point there => ?_) all
    dsimp only
    rw [there.word]
  rw [rootPoint, ← List.head?_filter]
  rw [entriesOf, List.length_map] at single
  obtain ⟨entry, entry_kept, rfl⟩ := List.mem_map.mp member
  obtain ⟨last, only⟩ := List.length_eq_one_iff.mp
    (Nat.le_antisymm single (List.length_pos_of_mem entry_kept))
  rw [only] at kept entry_kept
  generalize found.filter _ = found at kept
  obtain rfl := List.mem_singleton.mp entry_kept
  cases kept with
  | cons there none =>
      cases none
      exact there.stands enclosing

theorem schema_reads (front : Front text) :
    Reads schemaDefinition front fun d _ => d.locate text = d := by
  apply place_reads.bind
  rintro place _ ⟨rfl, here⟩
  apply keyword_reads.bind
  intro _ sign takes
  apply (directives_reads nesting sign).bind
  rintro directives brace ⟨_, leads⟩
  apply punct_reads.bind
  intro _ inside opens
  apply (entries_read inside).bind
  intro entries next all
  split
  · next fit =>
    apply Reads.pure
    have single (kind : OperationKind) : (entriesOf kind entries).length ≤ 1 := by
      rw [entriesFit, Bool.and_eq_true, List.all_eq_true, List.all_eq_true] at fit
      exact of_decide_eq_true (fit.2 kind kind.mem_all)
    have inside_found : seek text place [.keyword "schema", .directives, .punct '{'] =
        some (skipIgnored inside.rest) := by
      rw [here takes.continues, takes.continues.seek, takes.leads_keyword, leads,
        opens.leads_punct, steps]
    have same : ∀ root ∈ Grammar.rootTypes place entries, root.type.locate text place
        (rootPoint (Header.rootTypes text place) root.operation) = root.type := by
      intro root member
      obtain ⟨kind, _, there⟩ := List.mem_flatMap.mp member
      obtain ⟨type, called, rfl⟩ := List.mem_map.mp there
      rw [Header.rootTypes, inside_found]
      exact entry_found all (single kind) called place
    rw [Definition.locate, SchemaDefinition.locate]
    dsimp only
    rw [map_self fun root member => by rw [same root member]]
  · exact .throw place

theorem type_system_item_reads (front : Front text) :
    Reads typeSystemItem front fun item _ =>
      ∀ d, Document.definitionOf item = .ok d → d.locate text = d := by
  apply peek_reads.bind
  rintro token _ ⟨rfl, sees⟩
  split
  · apply (schema_reads front).bind
    intro d next same
    apply Reads.pure
    rintro _ ⟨⟩
    exact same
  · apply skip_seen sees nofun nofun
    intro after takes
    apply place_reads.bind
    intro place start _
    apply (type_definition_reads none start).bind
    intro content next _
    split
    · exact .pure nofun
    · exact .throw place
  · apply optional_string_reads.bind
    intro description start _
    apply at_word_reads.bind
    rintro directive _ ⟨rfl, _⟩
    split
    · apply (directive_definition_reads description start).bind
      intro d next same
      apply Reads.pure
      rintro _ ⟨⟩
      exact same
    · apply (type_definition_reads description start).bind
      intro d next same
      apply Reads.pure
      rintro _ ⟨⟩
      exact same

end Grammar
end Schemas

section Documents
open Grammar GraphQL.Parser

variable {text : List Char} {α : Type}

theorem parse_reads {parser : Parser α} {Good : α → Prop} (in_step : InStep text)
    (reads : ∀ front : Front text, Reads parser front fun result _ => Good result) {result : α}
    (parsed : parser.parse (Lexeme.ofText .start text) = .ok result) : Good result := by
  rw [Parser.parse] at parsed
  rcases ran : parser.run (Lexeme.ofText .start text) with failure | ⟨returned, lexemes⟩
  · rw [ran] at parsed
    cases parsed
  · rw [ran] at parsed
    cases parsed
    obtain ⟨_, _, good⟩ := reads (.start in_step) _ _ ran
    exact good

theorem executable_document_reads (front : Front text) :
    Reads executableDocument front fun document _ => document.locate text = document := by
  apply (some_to_end_reads executable_reads front).bind
  intro definitions next all
  exact .pure (by rw [Document.locate, map_self all])

theorem executable_stands (in_step : InStep text) :
    (Document.parseExecutable text).map (Document.locate text) = Document.parseExecutable text := by
  rw [Document.parseExecutable]
  cases parsed : executableDocument.parse (Lexeme.ofText .start text) with
  | error place => rfl
  | ok document =>
      have same := parse_reads in_step executable_document_reads parsed
      exact congrArg Except.ok same

theorem defined_from {items : List TypeSystemItem} {definitions : List Definition}
    (defined : items.mapM Document.definitionOf = .ok definitions) {d : Definition}
    (member : d ∈ definitions) : ∃ item ∈ items, Document.definitionOf item = .ok d := by
  induction items generalizing definitions with
  | nil =>
      cases defined
      cases member
  | cons item items ih =>
      rw [List.mapM_cons] at defined
      obtain ⟨first, first_defined, defined⟩ := bind_ok defined
      obtain ⟨rest, rest_defined, defined⟩ := bind_ok defined
      cases defined
      rcases List.mem_cons.mp member with rfl | inside
      · exact ⟨item, List.mem_cons_self, first_defined⟩
      · obtain ⟨found, among, same⟩ := ih rest_defined inside
        exact ⟨found, List.mem_cons_of_mem _ among, same⟩

theorem type_system_stands (in_step : InStep text) {items : List TypeSystemItem}
    {definitions : List Definition} (parsed : Document.parseTypeSystem text = .ok items)
    (defined : items.mapM Document.definitionOf = .ok definitions) :
    Document.locate text ⟨definitions⟩ = ⟨definitions⟩ := by
  rw [Document.parseTypeSystem] at parsed
  cases read : typeSystemDocument.parse (Lexeme.ofText .start text) with
  | error place =>
      rw [read] at parsed
      cases parsed
  | ok found =>
      rw [read] at parsed
      cases parsed
      have each := parse_reads in_step (some_to_end_reads type_system_item_reads) read
      have same : ∀ d ∈ definitions, d.locate text = d := by
        intro d member
        obtain ⟨item, among, from_item⟩ := defined_from defined member
        exact each item among d from_item
      rw [Document.locate, map_self same]

/-- In a text that is in step, every type stands at the token it was read from, so that
looking the types up changes nothing in what was parsed. -/
theorem types_stand_at_tokens (source : String) (in_step : InStep source.toList) :
    Document.readExecutable source = Document.parseExecutable source.toList ∧
      Document.readTypeSystem source = do
        let items ← Document.parseTypeSystem source.toList
        return ⟨← items.mapM Document.definitionOf⟩ := by
  constructor
  · exact executable_stands in_step
  · rw [Document.readTypeSystem]
    cases parsed : Document.parseTypeSystem source.toList with
    | error problem => rfl
    | ok items =>
        show (items.mapM Document.definitionOf >>= _) = (items.mapM Document.definitionOf >>= _)
        cases defined : items.mapM Document.definitionOf with
        | error problem => rfl
        | ok definitions => exact congrArg Except.ok (type_system_stands in_step parsed defined)

/-- The places of fragments, each with the place of its type condition. -/
def conditionPlaces (document : Document) : List (Position × Position) :=
  document.definitions.filterMap fun
    | .fragment d => some (d.position, d.typeCondition.position)
    | _ => none

theorem conditions_of_two_fragments :
    InStep "fragment F on T{a}\nfragment FF on T{a}".toList ∧
      (Document.readExecutable "fragment F on T{a}\nfragment FF on T{a}").map conditionPlaces =
        .ok [(⟨1, 1⟩, ⟨1, 15⟩), (⟨2, 1⟩, ⟨2, 16⟩)] := by
  have plain : Plain "fragment F on T{a}\nfragment FF on T{a}".toList := by decide
  constructor
  · exact plain_in_step plain
  · rw [(types_stand_at_tokens _ (plain_in_step plain)).1]
    decide +kernel

/-- A comment that a carriage return ends counts as a line end, and the line feed behind it
as another. The ruler knows only the second, so it looks for the first fragment a line too
late and finds the second one there: the condition stands neither at its own token nor where
its fragment stands. -/
theorem condition_of_next_fragment :
    (Document.readExecutable "#\r\nfragment F on T{a}\nfragment FF on T{a}").map conditionPlaces =
        .ok [(⟨3, 1⟩, ⟨3, 16⟩), (⟨4, 1⟩, ⟨4, 1⟩)] ∧
      (Document.parseExecutable "#\r\nfragment F on T{a}\nfragment FF on T{a}".toList).map
          conditionPlaces =
        .ok [(⟨3, 1⟩, ⟨3, 15⟩), (⟨4, 1⟩, ⟨4, 16⟩)] := by
  constructor
  · decide +kernel
  · decide +kernel

end Documents
end GraphQL
