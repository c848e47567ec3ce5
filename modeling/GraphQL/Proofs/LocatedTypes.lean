import GraphQL.Document.Reading
import GraphQL.Proofs.ValueRuns

/-! Where types stand. In a text that is in step, looking a type up from the header around
it finds the token that the type was read from, so that no type has to stand where its
surroundings do. -/
namespace GraphQL.Grammar
open GraphQL.Parser Text Header

variable {text : List Char} {front next : Front text}

section Selections

theorem locate_selections_self (selections : List Selection)
    (each : ∀ selection ∈ selections, selection.locate text = selection) :
    locateSelections text selections = selections := by
  induction selections with
  | nil => rw [locateSelections]
  | cons selection rest ih =>
      obtain ⟨first, later⟩ := List.forall_mem_cons.mp each
      rw [locateSelections, first, ih later]

variable {nested : Parser SelectionSet}

theorem field_reads
    (each : ∀ front : Front text, Reads nested front fun set _ => set.locate text = set)
    (room : Nat) (front : Front text) :
    Reads (field nested room) front fun field _ => field.locate text = field := by
  apply place_reads.bind
  rintro place _ ⟨rfl, _⟩
  apply name_reads.bind
  intro first colon _
  apply accept_reads.bind
  intro renamed second _
  dsimp only
  -- Whichever of the two names is the field's, nothing in it is located.
  have named : Reads name second fun _ _ => True := name_reads.mono fun _ _ _ => trivial
  apply Reads.either renamed (fun _ => named) (fun _ => .pure trivial)
  intro called opening _
  apply (arguments_reads place room opening).bind
  intro arguments sign _
  apply (directives_reads room sign).bind
  intro directives brace _
  apply at_punct_reads.bind
  rintro braced _ ⟨rfl, _⟩
  have set : Reads (some <$> nested) brace fun set? _ => locateOptional text set? = set? :=
    (each brace).map some fun set _ same => by rw [locateOptional, same]
  have bare : Reads (pure none) brace fun set? _ => locateOptional text set? = set? :=
    .pure (by rw [locateOptional])
  apply Reads.either braced (fun _ => set) (fun _ => bare)
  intro set? next same
  exact .pure (by rw [Field.locate, same])

theorem inline_fragment_reads
    (each : ∀ front : Front text, Reads nested front fun set _ => set.locate text = set)
    (room : Nat) (place : Position) (condition : Option NamedType) (front : Front text)
    (stands : condition.map (NamedType.locate text place (seek text place [.keyword "on"])) =
      condition) :
    Reads (inlineFragment nested room place condition) front fun selection _ =>
      selection.locate text = selection := by
  apply (directives_reads room front).bind
  intro directives brace _
  apply (each brace).bind
  intro set next same
  exact .pure (by rw [Selection.locate, InlineFragment.locate, stands, same])

theorem after_dots_reads
    (each : ∀ front : Front text, Reads nested front fun set _ => set.locate text = set)
    (room : Nat) (front : Front text) :
    Reads (afterDots nested room) front fun selection _ => selection.locate text = selection := by
  apply place_reads.bind
  rintro place _ ⟨rfl, here⟩
  apply optional_name_reads.bind
  rintro word? after (⟨word, rfl, takes⟩ | ⟨rfl, rfl⟩)
  · split
    · next on =>
      cases on
      apply (named_type_reads after).bind
      rintro type next ⟨stands, _⟩
      apply inline_fragment_reads each
      rw [here takes.continues, takes.continues.seek, takes.leads_keyword, steps, Option.map_some,
        stands]
    · next called =>
      apply (directives_reads room after).bind
      intro directives next _
      exact .pure (by rw [Selection.locate])
    · next none => cases none
  · exact inline_fragment_reads each room place none front rfl

theorem selection_reads
    (each : ∀ front : Front text, Reads nested front fun set _ => set.locate text = set)
    (room : Nat) (front : Front text) :
    Reads (selection nested room) front fun selection _ => selection.locate text = selection := by
  apply peek_reads.bind
  rintro token _ ⟨rfl, sees⟩
  split
  · apply skip_seen sees nofun nofun
    intro after takes
    exact after_dots_reads each room _
  · apply (field_reads each room front).bind
    intro field next same
    exact .pure (by rw [Selection.locate, same])

theorem selection_set_reads (room : Nat) (front : Front text) :
    Reads (selectionSet room) front fun set _ => set.locate text = set := by
  induction room generalizing front with
  | zero => exact fail_reads
  | succ room ih =>
      apply place_reads.bind
      rintro place _ ⟨rfl, _⟩
      apply punct_reads.bind
      intro _ inside _
      have item (front : Front text) : Reads (selection (selectionSet room) room) front
          fun selection next => selection.locate text = selection ∧ Anyhow front next :=
        (selection_reads ih room front).mono fun _ _ same => ⟨same, trivial⟩
      apply (some_until_reads anyhow_composes item inside).bind
      rintro selections next ⟨all, _⟩
      exact .pure (by rw [SelectionSet.locate, locate_selections_self selections all])

end Selections

section Executable

theorem map_self {α : Type} {f : α → α} {items : List α} (each : ∀ item ∈ items, f item = item) :
    items.map f = items := by
  rw [List.map_congr_left each]
  exact List.map_id items

theorem variable_reads (room : Nat) (front : Front text) :
    Reads (variableDefinition room) front fun d next =>
      d.locate text = d ∧ Anyhow front next := by
  apply place_reads.bind
  rintro place _ ⟨rfl, here⟩
  apply punct_reads.bind
  intro _ dollar takes_dollar
  apply name_reads.bind
  intro called colon takes_name
  apply punct_reads.bind
  intro _ start takes_colon
  apply (type_ref_reads room start).bind
  rintro type after ⟨stands, _⟩
  apply (default_reads place room after).bind
  intro default next _
  apply Reads.pure
  refine ⟨?_, trivial⟩
  rw [VariableDefinition.locate, here takes_dollar.continues, takes_dollar.continues.seek,
    takes_dollar.leads_punct, takes_name.leads_name, takes_colon.leads_punct, steps, stands]

theorem operation_reads (place : Position) (kind : OperationKind) (front : Front text) :
    Reads (operation place kind) front fun d _ => d.locate text = d := by
  apply optional_name_reads.bind
  intro called group _
  apply (optional_group_reads anyhow_composes variable_reads nesting group).bind
  rintro declared sign ⟨all, _⟩
  apply (directives_reads nesting sign).bind
  intro directives brace _
  apply (selection_set_reads nesting brace).bind
  intro set next same
  exact .pure (by rw [Definition.locate, Operation.locate, map_self all, same])

theorem fragment_reads {before : Front text} (takes : before.Takes (.name "fragment") front) :
    Reads (fragment before.here) front fun d _ => d.locate text = d := by
  apply name_reads.bind
  intro called on takes_name
  apply keyword_reads.bind
  intro _ start takes_on
  apply (named_type_reads start).bind
  rintro condition sign ⟨stands, _⟩
  apply (directives_reads nesting sign).bind
  intro directives brace _
  apply (selection_set_reads nesting brace).bind
  intro set next same
  apply Reads.pure
  rw [Definition.locate, Fragment.locate, takes.continues.seek, takes.leads_keyword,
    takes_name.leads_name, takes_on.leads_keyword, steps, stands, same]

theorem executable_reads (front : Front text) :
    Reads executable front fun d _ => d.locate text = d := by
  apply place_reads.bind
  rintro place _ ⟨rfl, here⟩
  apply peek_reads.bind
  rintro token _ ⟨rfl, sees⟩
  split
  · apply (selection_set_reads nesting front).bind
    intro set next same
    exact .pure (by rw [Definition.locate, Operation.locate, List.map_nil, same])
  · apply skip_seen sees nofun nofun
    intro after takes
    exact operation_reads place .query _
  · apply skip_seen sees nofun nofun
    intro after takes
    exact operation_reads place .mutation _
  · apply skip_seen sees nofun nofun
    intro after takes
    exact operation_reads place .subscription _
  · apply skip_seen sees nofun nofun
    intro after takes
    rw [here takes.continues]
    exact fragment_reads takes
  · exact fail_reads

end Executable

section Fields

theorem input_value_reads (room : Nat) (front : Front text) :
    Reads (inputValue room) front fun d next => d.locate text = d ∧ front.Passes next := by
  apply place_reads.bind
  rintro place _ ⟨rfl, here⟩
  apply optional_string_reads.bind
  rintro description named ⟨passes_string, leads_string⟩
  apply name_reads.bind
  intro called colon takes_name
  apply punct_reads.bind
  intro _ start takes_colon
  apply (type_ref_reads room start).bind
  rintro type equals ⟨stands, passes_type⟩
  apply (default_reads place room equals).bind
  intro default sign passes_default
  apply (directives_reads room sign).bind
  rintro directives next ⟨passes_directives, _⟩
  obtain ⟨continues, leads_string⟩ := leads_string takes_name.continues
  apply Reads.pure
  constructor
  · rw [InputValueDefinition.locate, here continues, continues.seek, leads_string,
      takes_name.leads_name, takes_colon.leads_punct, steps, stands]
  · have head := passes_string.trans
      (takes_name.passes_name.trans (takes_colon.passes_punct (by decide) (by decide)))
    exact head.trans (passes_type.trans (passes_default.trans passes_directives))

theorem field_definition_reads (room : Nat) (front : Front text) :
    Reads (fieldDefinition room) front fun d next => d.locate text = d ∧ Anyhow front next := by
  apply place_reads.bind
  rintro place _ ⟨rfl, here⟩
  apply optional_string_reads.bind
  rintro description named ⟨_, leads_string⟩
  apply name_reads.bind
  intro called group takes_name
  apply (group_reads input_value_reads room group).bind
  rintro arguments colon ⟨all, _, leads_group⟩
  apply punct_reads.bind
  intro _ start takes_colon
  apply (type_ref_reads room start).bind
  rintro type sign ⟨stands, _⟩
  apply (directives_reads room sign).bind
  rintro directives next _
  obtain ⟨continues, leads_string⟩ := leads_string takes_name.continues
  apply Reads.pure
  refine ⟨?_, trivial⟩
  rw [FieldDefinition.locate, map_self all, here continues, continues.seek, leads_string,
    takes_name.leads_name, leads_group, takes_colon.leads_punct, steps, stands]

theorem enum_value_reads (room : Nat) (front : Front text) :
    Reads (enumValue room) front fun _ next => True ∧ Anyhow front next := by
  apply place_reads.bind
  rintro place _ ⟨rfl, _⟩
  apply optional_string_reads.bind
  intro description named _
  apply name_reads.bind
  intro called sign _
  apply (directives_reads room sign).bind
  intro directives next _
  exact .pure ⟨trivial, trivial⟩

theorem locate_names_cons (enclosing : Position) (separator : Char) (point : Option (List Char))
    (type : NamedType) (rest : List NamedType) :
    locateNames text enclosing separator point (type :: rest) =
      type.locate text enclosing point ::
        locateNames text enclosing separator (point.bind (afterSeparator? separator)) rest := rfl

/-- What follows a name in a row is found from that name. -/
theorem after_separator_eq {word : String} (takes : front.Takes (.name word) next)
    (separator : Char) :
    (some (skipIgnored front.rest)).bind (afterSeparator? separator) =
      steps next.rest [.punct separator] := by
  rw [Option.bind_some, afterSeparator?, Front.steps_skip, takes.leads_name]

theorem more_names_read (separator : Char) (room : Nat) (front : Front text) :
    Reads (repeatWhile separator (do punct separator; namedType) room) front fun types _ =>
      ∀ enclosing, locateNames text enclosing separator
        (steps front.rest [.punct separator]) types = types := by
  induction room generalizing front with
  | zero => exact .pure fun _ => rfl
  | succ room ih =>
      apply at_punct_reads.bind
      rintro goes _ ⟨rfl, _⟩
      cases goes with
      | true =>
          have item : Reads (do punct separator; namedType) front fun type next =>
              ∃ start, front.Takes (.punct separator) start ∧ NameStands type start ∧
                start.Takes (.name type.name) next := by
            apply punct_reads.bind
            intro _ start separates
            exact (named_type_reads start).mono fun type next there => ⟨start, separates, there⟩
          apply item.bind
          rintro type next ⟨start, separates, stands, takes⟩
          apply (ih next).bind
          intro rest last same
          apply Reads.pure
          intro enclosing
          rw [separates.leads_punct, steps, locate_names_cons, stands, after_separator_eq takes, same]
      | false => exact .pure fun _ => rfl

theorem names_read (separator : Char) (front : Front text) :
    Reads (separated separator namedType) front fun types _ =>
      ∀ enclosing, locateNames text enclosing separator (some (skipIgnored front.rest)) types =
        types := by
  apply (named_type_reads front).bind
  rintro type next ⟨stands, takes⟩
  have more : Reads (itemsWhile separator (do punct separator; namedType)) next fun types _ =>
      ∀ enclosing, locateNames text enclosing separator
        (steps next.rest [.punct separator]) types = types := by
    apply get_reads.bind
    rintro lexemes _ ⟨rfl, rfl⟩
    exact more_names_read separator _ next
  apply more.bind
  intro rest last same
  apply Reads.pure
  intro enclosing
  rw [locate_names_cons, stands, after_separator_eq takes, same]

theorem interfaces_read (front : Front text) :
    Reads interfaces front fun types _ => ∀ enclosing,
      locateNames text enclosing '&'
        (steps front.rest [.keyword "implements", .optionalPunct '&']) types = types := by
  apply accept_word_reads.bind
  rintro implements after (⟨rfl, takes⟩ | ⟨rfl, rfl⟩)
  · apply accept_reads.bind
    intro leading start there
    have leads : after.Leads (.optionalPunct '&') start := by
      rcases there with ⟨_, takes⟩ | ⟨_, rfl, none⟩
      · exact takes.leads_optional_punct
      · exact Front.leads_without_punct (Front.not_next (by decide) none)
    apply (names_read '&' start).mono
    intro types next same enclosing
    rw [takes.leads_keyword, leads, steps, same]
  · exact .pure fun _ => rfl

theorem members_read (front : Front text) :
    Reads members front fun types _ => ∀ enclosing,
      locateNames text enclosing '|' (steps front.rest [.punct '=', .optionalPunct '|']) types =
        types := by
  apply accept_reads.bind
  rintro equals after (⟨rfl, takes⟩ | ⟨rfl, rfl, _⟩)
  · apply accept_reads.bind
    intro leading start there
    have leads : after.Leads (.optionalPunct '|') start := by
      rcases there with ⟨_, takes⟩ | ⟨_, rfl, none⟩
      · exact takes.leads_optional_punct
      · exact Front.leads_without_punct (Front.not_next (by decide) none)
    apply (names_read '|' start).mono
    intro types next same enclosing
    rw [takes.leads_punct, leads, steps, same]
  · exact .pure fun _ => rfl

end Fields

section Types

theorem fields_definition_reads {before : Front text} {word : String}
    (takes : before.Takes (.name word) front) (description : Option String) :
    Reads (fieldsDefinition before.here description) front fun d _ => d.locate text word = d := by
  apply name_reads.bind
  intro called implements takes_name
  apply (interfaces_read implements).bind
  intro types sign same
  apply (directives_reads nesting sign).bind
  intro directives brace _
  apply (optional_group_reads anyhow_composes field_definition_reads nesting brace).bind
  rintro fields next ⟨all, _⟩
  apply Reads.pure
  rw [FieldsDefinition.locate, takes.continues.seek, takes.leads_keyword, takes_name.leads_name,
    same, map_self all]

theorem type_definition_reads (description : Option String) (front : Front text) :
    Reads (typeDefinition description) front fun d _ => d.locate text = d := by
  apply place_reads.bind
  rintro place _ ⟨rfl, here⟩
  apply peek_reads.bind
  rintro token _ ⟨rfl, sees⟩
  split
  · apply skip_seen sees nofun nofun
    intro named takes
    apply name_reads.bind
    intro called sign _
    apply (directives_reads nesting sign).bind
    intro directives next _
    exact .pure rfl
  · apply skip_seen sees nofun nofun
    intro named takes
    rw [here takes.continues]
    apply (fields_definition_reads takes description).bind
    intro d next same
    exact .pure (by rw [Definition.locate, same])
  · apply skip_seen sees nofun nofun
    intro named takes
    rw [here takes.continues]
    apply (fields_definition_reads takes description).bind
    intro d next same
    exact .pure (by rw [Definition.locate, same])
  · apply skip_seen sees nofun nofun
    intro named takes
    apply name_reads.bind
    intro called sign takes_name
    apply (directives_reads nesting sign).bind
    rintro directives equals ⟨_, leads⟩
    apply (members_read equals).bind
    intro types next same
    apply Reads.pure
    rw [Definition.locate, UnionDefinition.locate, here takes.continues, takes.continues.seek,
      takes.leads_keyword, takes_name.leads_name, leads, same]
  · apply skip_seen sees nofun nofun
    intro named takes
    apply name_reads.bind
    intro called sign _
    apply (directives_reads nesting sign).bind
    intro directives brace _
    apply (optional_group_reads anyhow_composes enum_value_reads nesting brace).bind
    intro values next _
    exact .pure rfl
  · apply skip_seen sees nofun nofun
    intro named takes
    apply name_reads.bind
    intro called sign _
    apply (directives_reads nesting sign).bind
    intro directives brace _
    have item (room : Nat) (front : Front text) : Reads (inputValue room) front fun d next =>
        d.locate text = d ∧ Anyhow front next :=
      (input_value_reads room front).mono fun d next there => ⟨there.1, trivial⟩
    apply (optional_group_reads anyhow_composes item nesting brace).bind
    rintro fields next ⟨all, _⟩
    exact .pure (by rw [Definition.locate, map_self all])
  · exact fail_reads

theorem location_reads (front : Front text) :
    Reads location front fun _ next => front.Passes next := by
  apply place_reads.bind
  rintro place _ ⟨rfl, _⟩
  apply name_reads.bind
  intro called next takes
  split
  · exact .pure takes.passes_name
  · exact .throw place

theorem separated_locations_read (front : Front text) :
    Reads (separated '|' location) front fun _ next => front.Passes next := by
  have item (front : Front text) : Reads (do punct '|'; location) front fun _ next =>
      True ∧ front.Passes next ∧ next.lexemes.length < front.lexemes.length := by
    apply punct_reads.bind
    intro _ start separates
    apply (location_reads start).mono
    intro called next passes
    refine ⟨trivial, (separates.passes_punct (by decide) (by decide)).trans passes, ?_⟩
    exact Nat.lt_of_le_of_lt passes.shorter separates.shorter
  apply (location_reads front).bind
  intro first after passes
  apply (items_while_reads passes_composes item after).bind
  rintro rest next ⟨_, later, _⟩
  exact .pure (passes.trans later)

theorem locations_read (front : Front text) :
    Reads locations front fun _ next => front.Passes next := by
  apply accept_reads.bind
  rintro leading start (⟨rfl, takes⟩ | ⟨rfl, rfl, _⟩)
  · apply (separated_locations_read start).mono
    intro called next passes
    exact (takes.passes_punct (by decide) (by decide)).trans passes
  · apply peek_reads.bind
    rintro token _ ⟨rfl, sees⟩
    split
    · exact separated_locations_read front
    · exact .pure (.refl _)

theorem directive_definition_reads (description : Option String) (front : Front text) :
    Reads (directiveDefinition description) front fun d _ => d.locate text = d := by
  apply place_reads.bind
  rintro place _ ⟨rfl, _⟩
  apply keyword_reads.bind
  intro _ sign _
  apply punct_reads.bind
  intro _ named _
  apply name_reads.bind
  intro called group _
  apply (group_reads input_value_reads nesting group).bind
  rintro arguments after ⟨all, _⟩
  apply accept_word_reads.bind
  intro repeatable on _
  apply keyword_reads.bind
  intro _ start _
  apply (locations_read start).bind
  intro locations next _
  exact .pure (by rw [Definition.locate, map_self all])

end Types

end GraphQL.Grammar
