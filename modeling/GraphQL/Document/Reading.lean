import GraphQL.Document.Located
import GraphQL.Grammar.Executable
import GraphQL.Grammar.TypeSystem
import GraphQL.Lexical.Lexemes

/-! Documents from source text. A text is read as a whole before an extension in it is
refused; the first extension in source order counts. -/
namespace GraphQL

inductive ReadError where
  | executableSyntax (place : Position)
  | typeSystemSyntax (place : Position)
  | typeExtension (place : Position)
deriving DecidableEq

namespace ReadError

def problem (grammar : String) (place : Position) : String :=
  grammar ++ " parse error: Parse error at " ++ place.text

def message : ReadError → String
  | executableSyntax place => "Failed to parse executable document: " ++ problem "query" place
  | typeSystemSyntax place => "Failed to parse schema document: " ++ problem "schema" place
  | typeExtension place => "Unsupported definition at " ++ place.text ++ ": type extension"

/-- What an error that is reported in full is followed by. -/
def causes : ReadError → List String
  | executableSyntax place => [problem "query" place]
  | typeSystemSyntax place => [problem "schema" place]
  | typeExtension _ => []

end ReadError

namespace Document
open Grammar

def parseExecutable (text : List Char) : Except ReadError Document :=
  (executableDocument.parse (Lexeme.ofText .start text)).mapError .executableSyntax

def parseTypeSystem (text : List Char) : Except ReadError (List TypeSystemItem) :=
  (typeSystemDocument.parse (Lexeme.ofText .start text)).mapError .typeSystemSyntax

def definitionOf : TypeSystemItem → Except ReadError Definition
  | .definition definition => .ok definition
  | .extension place => .error (.typeExtension place)

def readExecutable (source : String) : Except ReadError Document :=
  (parseExecutable source.toList).map (locate source.toList)

def readTypeSystem (source : String) : Except ReadError Document := do
  let items ← parseTypeSystem source.toList
  return locate source.toList ⟨← items.mapM definitionOf⟩

end Document
end GraphQL
