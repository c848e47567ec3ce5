import GraphQL.Document.Basic
import GraphQL.Lexical.Header

/-! Where references to types stand. The place of a type is looked up in the text, from
the place of the definition or selection it is written in: the header is read again up
to the type, and the type must be found there. A type that is not found stands where
the enclosing node stands. -/
namespace GraphQL
open Header

section Types

def NamedType.locate (text : List Char) (enclosing : Position) (point : Option (List Char))
    (type : NamedType) : NamedType :=
  { type with position := (namePlace? text point type.name).getD enclosing }

def bracketPoint (point : Option (List Char)) : Option (List Char) :=
  point.filter fun rest => rest.head? == some '['

/-- A list stands at its bracket, and a type that is not null where its inner type does. -/
def TypeRef.locate (text : List Char) (enclosing : Position) (point : Option (List Char)) :
    TypeRef → TypeRef
  | .named type => .named (type.locate text enclosing point)
  | .list _ inner =>
      let bracket := bracketPoint point
      let place := (bracket.map (Ruler.placeOf text)).getD enclosing
      .list place (inner.locate text place (bracket.bind (steps · [.punct '['])))
  | .nonNull _ inner =>
      let inner := inner.locate text enclosing point
      .nonNull inner.position inner

def locateNames (text : List Char) (enclosing : Position) (separator : Char)
    (point : Option (List Char)) (types : List NamedType) : List NamedType :=
  (types.zip (separatedNames separator types.length point)).map fun (type, point) =>
    type.locate text enclosing point

end Types

section Selections

mutual

def SelectionSet.locate (text : List Char) : SelectionSet → SelectionSet
  | ⟨place, selections⟩ => ⟨place, locateSelections text selections⟩

def locateSelections (text : List Char) : List Selection → List Selection
  | [] => []
  | selection :: rest => selection.locate text :: locateSelections text rest

def Selection.locate (text : List Char) : Selection → Selection
  | .field field => .field (field.locate text)
  | .spread spread => .spread spread
  | .inline fragment => .inline (fragment.locate text)

def Field.locate (text : List Char) : Field → Field
  | ⟨place, key, name, arguments, directives, selections⟩ =>
      ⟨place, key, name, arguments, directives, locateOptional text selections⟩

def locateOptional (text : List Char) : Option SelectionSet → Option SelectionSet
  | none => none
  | some selections => some (selections.locate text)

def InlineFragment.locate (text : List Char) : InlineFragment → InlineFragment
  | ⟨place, condition, directives, selections⟩ =>
      ⟨place, condition.map (NamedType.locate text place (seek text place [.keyword "on"])),
        directives, selections.locate text⟩

end

end Selections

section Definitions

def VariableDefinition.locate (text : List Char) (d : VariableDefinition) : VariableDefinition :=
  { d with
    type := d.type.locate text d.position
      (seek text d.position [.punct '$', .name, .punct ':']) }

def InputValueDefinition.locate (text : List Char) (d : InputValueDefinition) :
    InputValueDefinition :=
  { d with
    type := d.type.locate text d.position
      (seek text d.position [.optionalString, .name, .punct ':']) }

def FieldDefinition.locate (text : List Char) (d : FieldDefinition) : FieldDefinition :=
  { d with
    arguments := d.arguments.map (InputValueDefinition.locate text)
    type := d.type.locate text d.position
      (seek text d.position [.optionalString, .name, .optionalGroup, .punct ':']) }

def FieldsDefinition.locate (text : List Char) (word : String) (d : FieldsDefinition) :
    FieldsDefinition :=
  { d with
    interfaces := locateNames text d.position '&'
      (seek text d.position [.keyword word, .name, .keyword "implements", .optionalPunct '&'])
      d.interfaces
    fields := d.fields.map (FieldDefinition.locate text) }

def UnionDefinition.locate (text : List Char) (d : UnionDefinition) : UnionDefinition :=
  { d with
    members := locateNames text d.position '|'
      (seek text d.position [.keyword "union", .name, .directives, .punct '=', .optionalPunct '|'])
      d.members }

def rootPoint (entries : List (String × List Char)) (kind : OperationKind) :
    Option (List Char) :=
  (entries.find? fun entry => entry.1 == kind.name).map Prod.snd

def SchemaDefinition.locate (text : List Char) (d : SchemaDefinition) : SchemaDefinition :=
  let entries := Header.rootTypes text d.position
  { d with rootTypes := d.rootTypes.map fun root =>
      { root with type := root.type.locate text d.position (rootPoint entries root.operation) } }

def Operation.locate (text : List Char) (d : Operation) : Operation :=
  { d with
    variableDefinitions := d.variableDefinitions.map (VariableDefinition.locate text)
    selectionSet := d.selectionSet.locate text }

def Fragment.locate (text : List Char) (d : Fragment) : Fragment :=
  { d with
    typeCondition := d.typeCondition.locate text d.position
      (seek text d.position [.keyword "fragment", .name, .keyword "on"])
    selectionSet := d.selectionSet.locate text }

def Definition.locate (text : List Char) : Definition → Definition
  | .operation d => .operation (d.locate text)
  | .fragment d => .fragment (d.locate text)
  | .schema d => .schema (d.locate text)
  | .scalar d => .scalar d
  | .object d => .object (d.locate text "type")
  | .interface d => .interface (d.locate text "interface")
  | .union d => .union (d.locate text)
  | .enum d => .enum d
  | .input d => .input { d with fields := d.fields.map (InputValueDefinition.locate text) }
  | .directive d =>
      .directive { d with arguments := d.arguments.map (InputValueDefinition.locate text) }

def Document.locate (text : List Char) (document : Document) : Document :=
  ⟨document.definitions.map (Definition.locate text)⟩

end Definitions

end GraphQL
