import GraphQL.Document.Reading
import GraphQL.Schema.Flaw

/-! A draft collects the definitions of type-system documents until a schema is built
from it. What cannot be collected is refused at once; how the types fit together is
checked when the schema is built. -/
namespace GraphQL

section Errors

def OperationKind.title : OperationKind → String
  | .query => "Query"
  | .mutation => "Mutation"
  | .subscription => "Subscription"

inductive SchemaError where
  | duplicateDirective (name : String) (first second : Origin)
  | duplicateField (type field : String) (first second : Origin)
  | duplicateRoot (operation : OperationKind) (place : Position)
  | duplicateSchema (first second : Position)
  | duplicateType (name : String) (first : Origin) (second : Position)
  | duplicateMember (union member : String) (place : Position)
  | executableDefinition (place : Position)
  | unreadableFile (path reason : String)
  | reservedName (name : String) (place : Position)
  | noQueryRoot
  | unread (error : ReadError)
  | rootNotObject (operation : OperationKind) (type : String)
  | flawed (flaws : List TypeFlaw)
deriving DecidableEq

namespace SchemaError
open TypeFlaw

def message : SchemaError → String
  | duplicateDirective name _ _ =>
      "Multiple directive definitions for " ++ ticked ("@" ++ name)
  | duplicateField type field _ _ =>
      "The " ++ ticked type ++ " type defines the " ++ ticked field ++ " field more than once"
  | duplicateRoot operation _ =>
      "Multiple root " ++ ticked operation.title ++ " operation types defined"
  | duplicateSchema _ _ => "Multiple `schema` definitions found"
  | duplicateType name _ _ => "Multiple definitions of the " ++ ticked name ++ " type"
  | duplicateMember union member _ =>
      "The " ++ ticked union ++ " union lists " ++ ticked member ++ " more than once"
  | executableDefinition _ => "Executable definitions are not allowed in a schema document"
  | unreadableFile path reason =>
      "Error reading schema file " ++ Quoted.quote path ++ ": " ++ reason
  | reservedName name _ =>
      "Names starting with `__` are reserved for introspection: " ++ ticked name
  | noQueryRoot => "No query operation type defined"
  | unread error => error.message
  | rootNotObject operation type =>
      "The root " ++ operation.title ++ " operation type " ++ ticked type ++
        " must be a defined object type"
  | flawed flaws =>
      "Found " ++ toString flaws.length ++ " type validation errors: " ++
        (Outline.list (flaws.map TypeFlaw.outline)).text

end SchemaError
end Errors

structure Draft where
  types : List SchemaType
  directives : List DirectiveRule
  schemaPlace? : Option Position
  roots : List (OperationKind × String)

namespace Draft

def empty : Draft := ⟨builtinTypes, [], none, []⟩

section Collecting
variable {α : Type} [Named α]

def isReserved (name : String) : Bool :=
  match name.toList with
  | '_' :: '_' :: _ => true
  | _ => false

def addType (draft : Draft) (type : SchemaType) (place : Position) : Except SchemaError Draft :=
  if isReserved type.name then .error (.reservedName type.name place)
  else
    match Named.find? type.name draft.types with
    | some first => .error (.duplicateType type.name first.origin place)
    | none => .ok { draft with types := draft.types ++ [type] }

def addField (type : String) (origin : α → Origin) (fields : List α) (field : α) :
    Except SchemaError (List α) :=
  match Named.find? (Named.nameOf field) fields with
  | some first => .error (.duplicateField type (Named.nameOf field) (origin first) (origin field))
  | none => .ok (fields ++ [field])

def collectFields (type : String) (origin : α → Origin) (fields : List α) :
    Except SchemaError (List α) :=
  fields.foldlM (addField type origin) []

def addMember (union : String) (members : List String) (member : NamedType) :
    Except SchemaError (List String) :=
  if members.contains member.name then
    .error (.duplicateMember union member.name member.position)
  else .ok (members ++ [member.name])

def fieldsType (d : FieldsDefinition) : Except SchemaError FieldsType := do
  let fields ← collectFields d.name OutputField.origin (d.fields.map OutputField.ofDefinition)
  return ⟨.written d.position, d.description?, d.name, d.interfaces.map NamedType.name, fields⟩

def unionType (d : UnionDefinition) : Except SchemaError UnionType := do
  let members ← d.members.foldlM (addMember d.name) []
  return ⟨.written d.position, d.description?, d.name, members⟩

def inputType (d : InputObjectDefinition) : Except SchemaError InputObjectType := do
  let fields ← collectFields d.name InputValue.origin (d.fields.map InputValue.ofDefinition)
  return ⟨.written d.position, d.description?, d.name, fields⟩

def addDirective (draft : Draft) (rule : DirectiveRule) : Except SchemaError Draft :=
  match Named.find? rule.name draft.directives with
  | some first => .error (.duplicateDirective rule.name first.origin rule.origin)
  | none => .ok { draft with directives := draft.directives ++ [rule] }

def addRoot (draft : Draft) (root : RootTypeDefinition) : Except SchemaError Draft :=
  match draft.roots.lookup root.operation with
  | some _ => .error (.duplicateRoot root.operation root.position)
  | none => .ok { draft with roots := draft.roots ++ [(root.operation, root.type.name)] }

def addSchema (draft : Draft) (d : SchemaDefinition) : Except SchemaError Draft :=
  match draft.schemaPlace? with
  | some first => .error (.duplicateSchema first d.position)
  | none => d.rootTypes.foldlM addRoot { draft with schemaPlace? := some d.position }

def add (draft : Draft) : Definition → Except SchemaError Draft
  | .operation d => .error (.executableDefinition d.position)
  | .fragment d => .error (.executableDefinition d.position)
  | .schema d => draft.addSchema d
  | .directive d => draft.addDirective (.ofDefinition d)
  | .scalar d => draft.addType (.scalar (.ofDefinition d)) d.position
  | .enum d => draft.addType (.enum (.ofDefinition d)) d.position
  | .object d => do draft.addType (.object (← fieldsType d)) d.position
  | .interface d => do draft.addType (.interface (← fieldsType d)) d.position
  | .union d => do draft.addType (.union (← unionType d)) d.position
  | .input d => do draft.addType (.input (← inputType d)) d.position

def load (draft : Draft) (document : Document) : Except SchemaError Draft :=
  document.definitions.foldlM add draft

def loadText (draft : Draft) (source : String) : Except SchemaError Draft := do
  draft.load (← (Document.readTypeSystem source).mapError .unread)

end Collecting

section Building

def withBuiltins (directives : List DirectiveRule) : List DirectiveRule :=
  directives ++ builtinRules.filter fun rule => !Named.has rule.name directives

def addName (names : List String) (name : String) : List String :=
  if names.contains name then names else names ++ [name]

/-- Adds to the possible types of an abstract type. -/
def addPossible (name : String) (objects : List String) : List Possible → List Possible
  | [] => [⟨name, objects.foldl addName []⟩]
  | first :: rest =>
      if first.name == name then ⟨name, objects.foldl addName first.objects⟩ :: rest
      else first :: addPossible name objects rest

def addPossibleOf (possible : List Possible) : SchemaType → List Possible
  | .interface t => addPossible t.name [] possible
  | .object t =>
      t.interfaces.foldl (fun possible interface => addPossible interface [t.name] possible)
        possible
  | .union t => addPossible t.name t.members possible
  | _ => possible

/-- The schema definition names the root types. Without one, an operation starts at the
type that has its title, if there is such a type. -/
def rootName? (draft : Draft) (kind : OperationKind) : Option String :=
  match draft.roots.lookup kind, draft.schemaPlace? with
  | some name, _ => some name
  | none, some _ => none
  | none, none => if Named.has kind.title draft.types then some kind.title else none

def root? (draft : Draft) (kind : OperationKind) : Except SchemaError (Option String) :=
  match draft.rootName? kind with
  | none => .ok none
  | some name =>
      match Named.find? name draft.types with
      | some (.object _) => .ok (some name)
      | _ => .error (.rootNotObject kind name)

def build (draft : Draft) : Except SchemaError Schema := do
  let directives := withBuiltins draft.directives
  match schemaFlaws draft.types directives with
  | [] =>
      match ← draft.root? .query with
      | none => .error .noQueryRoot
      | some query =>
          let mutation ← draft.root? .mutation
          let subscription ← draft.root? .subscription
          return ⟨draft.types, directives, draft.types.foldl addPossibleOf [], query, mutation,
            subscription⟩
  | flaws => .error (.flawed flaws)

end Building

end Draft
end GraphQL
