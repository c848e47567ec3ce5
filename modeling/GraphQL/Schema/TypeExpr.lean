import GraphQL.Document.Value

/-! Types of fields, parameters and variables. Here every level says by itself whether
it admits null, where a reference in a document wraps what does not. -/
namespace GraphQL

inductive TypeExpr where
  | named (name : String) (nullable : Bool)
  | list (inner : TypeExpr) (nullable : Bool)
deriving DecidableEq

namespace TypeExpr

def ofRefWith (nullable : Bool) : TypeRef → TypeExpr
  | .named type => named type.name nullable
  | .list _ inner => list (ofRefWith true inner) nullable
  | .nonNull _ inner => ofRefWith false inner

def ofRef (type : TypeRef) : TypeExpr := ofRefWith true type

def nullable : TypeExpr → Bool
  | named _ nullable => nullable
  | list _ nullable => nullable

def inner? : TypeExpr → Option TypeExpr
  | named _ _ => none
  | list inner _ => some inner

def name? : TypeExpr → Option String
  | named name _ => some name
  | list _ _ => none

/-- The name at the core, and whether null is admitted there. -/
def innermost : TypeExpr → String × Bool
  | named name nullable => (name, nullable)
  | list inner _ => inner.innermost

def innermostName (type : TypeExpr) : String := type.innermost.1

def mark (nullable : Bool) : String := if nullable then "" else "!"

def text : TypeExpr → String
  | named name nullable => name ++ mark nullable
  | list inner nullable => "[" ++ inner.text ++ "]" ++ mark nullable

/-- The same lists, the same name, and null admitted at the same levels. -/
def equivalent : TypeExpr → TypeExpr → Bool
  | named name nullable, named name' nullable' => nullable == nullable' && name == name'
  | list inner nullable, list inner' nullable' => nullable == nullable' && inner.equivalent inner'
  | _, _ => false

theorem equivalent_iff (a b : TypeExpr) : a.equivalent b = true ↔ a = b := by
  induction a generalizing b with
  | named name nullable => cases b <;> simp [equivalent, and_comm]
  | list inner nullable ih => cases b <;> simp [equivalent, ih, and_comm]

end TypeExpr
end GraphQL
