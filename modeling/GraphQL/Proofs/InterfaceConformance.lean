import GraphQL.Proofs.KeptDefinitions

/-! What an `implements` clause promises. Every name in it is that of an interface, and an
object type has a field of every name that these interfaces define. An interface type
makes the same promise, but its fields are never compared with those of its parents. -/
namespace GraphQL

section Conformance
variable {types : List SchemaType} {schema : Schema}

/-- The names that a type lists are those of interfaces, all fields of which it has. -/
def SchemaType.Conforms (types : List SchemaType) (type : SchemaType) : Prop :=
  ∀ name ∈ type.interfaces, ∃ interface, IsInterface types name interface ∧
    ∀ field ∈ interface.fields, ∃ own ∈ type.fields, own.name = field.name

theorem SchemaType.Fits.conforms {object : FieldsType}
    (fits : (SchemaType.object object).Fits types) :
    (SchemaType.object object).Conforms types := by
  intro name listed
  obtain ⟨interface, found⟩ := fits.interfaces name listed
  exact ⟨interface, found, fits.implements object rfl name listed interface found⟩

theorem Schema.Built.fits (built : schema.Built) {type : SchemaType}
    (member : type ∈ schema.types) : type.Fits schema.types := by
  obtain ⟨documents, draft, _, made⟩ := built
  obtain ⟨well, _, own, _⟩ := Draft.build_iff.mp made
  rw [own] at member ⊢
  exact well.each type member

theorem SchemaType.Conforms.field {type : SchemaType} (conforms : type.Conforms types)
    {name : String} (listed : name ∈ type.interfaces) {interface : FieldsType}
    (found : IsInterface types name interface) {field : OutputField}
    (member : field ∈ interface.fields) : ∃ own ∈ type.fields, own.name = field.name := by
  obtain ⟨interface', found', implemented⟩ := conforms name listed
  -- A name is not that of two interfaces.
  cases found.symm.trans found'
  exact implemented field member

/-- In a schema that was built all types list interfaces only, and the object types have
the fields of all interfaces that they list. -/
theorem listed_interfaces_are_implemented (built : schema.Built) (type : SchemaType)
    (member : type ∈ schema.types) :
    (∀ name ∈ type.interfaces, ∃ interface, IsInterface schema.types name interface) ∧
      (type.object?.isSome = true → type.Conforms schema.types) := by
  have fits := built.fits member
  constructor
  · exact fits.interfaces
  · intro is_object
    cases type with
    | object object => exact fits.conforms
    | _ => cases is_object

section Chain

/-! An object type and an interface type that both list an interface. The object type has
the field of it, and the interface type lacks it. -/

def idField : FieldDefinition := ⟨.start, none, "id", [], .named ⟨.start, "ID"⟩, []⟩

def queryObject : FieldsDefinition :=
  ⟨.start, none, "Query", [⟨.start, "Node"⟩], [], [idField]⟩

def nodeInterface : FieldsDefinition := ⟨.start, none, "Node", [], [], [idField]⟩

def namedInterface : FieldsDefinition :=
  ⟨.start, none, "Named", [⟨.start, "Node"⟩], [],
    [⟨.start, none, "name", [], .named ⟨.start, "String"⟩, []⟩]⟩

def chain : List Definition :=
  [.object queryObject, .interface nodeInterface, .interface namedInterface]

theorem chain_builds : ∃ schema : Schema, schema.Built ∧
    schema.types = builtinTypes ++ [.object (.ofDefinition queryObject),
      .interface (.ofDefinition nodeInterface), .interface (.ofDefinition namedInterface)] := by
  have makes : (schemaOf [⟨chain⟩]).isOk = true := by decide +kernel
  exact built_of_makes makes

/-- The object type conforms to the interface that it lists. -/
theorem query_object_conforms :
    let type : SchemaType := .object (.ofDefinition queryObject)
    ∃ schema : Schema, schema.Built ∧ type ∈ schema.types ∧
      ((∀ name ∈ type.interfaces, ∃ interface, IsInterface schema.types name interface) ∧
        (type.object?.isSome = true → type.Conforms schema.types)) ∧
      type.object?.isSome = true ∧ type.interfaces = ["Node"] := by
  intro type
  obtain ⟨schema, built, types⟩ := chain_builds
  have member : type ∈ schema.types := by
    rw [types]
    exact List.mem_append_right _ List.mem_cons_self
  exact ⟨schema, built, member, listed_interfaces_are_implemented built type member, rfl, rfl⟩

/-- The interface type does not conform to the interface that it lists. -/
theorem named_interface_lacks_id :
    let type : SchemaType := .interface (.ofDefinition namedInterface)
    ∃ schema : Schema, schema.Built ∧ type ∈ schema.types ∧ ¬ type.Conforms schema.types := by
  intro type
  obtain ⟨schema, built, types⟩ := chain_builds
  refine ⟨schema, built, ?_, ?_⟩
  · rw [types]
    simp [type]
  · intro conforms
    have node : IsInterface schema.types "Node" (.ofDefinition nodeInterface) := by
      rw [types]
      rfl
    obtain ⟨own, member, named⟩ := conforms.field List.mem_cons_self node
      (List.mem_cons_self : OutputField.ofDefinition idField ∈ _)
    cases List.mem_singleton.mp member
    revert named
    decide

end Chain
end Conformance
end GraphQL
