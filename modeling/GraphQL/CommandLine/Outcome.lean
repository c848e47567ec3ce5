import GraphQL.CommandLine.Arguments
import GraphQL.CommandLine.Disk
import GraphQL.Schema.Draft
import GraphQL.Validation.Basic

/-! The validate command: it builds a schema from files, finds the files that are asked
for and validates the document in each of them. It reports either what was done or, file
by file, everything that was found. -/
namespace GraphQL

inductive Outcome where
  | valid (analyzed skipped operations : Nat)
  | invalid (lines : List String)
  | badSchema (error : SchemaError)
  | unscannable (path : String) (error : WalkError)
  | unresolved (path : String) (error : SystemError)

namespace Outcome

def succeeded : Outcome → Bool
  | valid _ _ _ => true
  | _ => false

def counted (count : Nat) (one many : String) : String :=
  toString count ++ " " ++ (if count = 1 then one else many)

def text : Outcome → String
  | valid analyzed skipped operations =>
      "\n".intercalate
        ["✅ All GraphQL validated successfully:",
         "  * Analyzed " ++ counted analyzed "file" "files" ++ ".",
         "  * Skipped " ++ counted skipped "non-graphql file" "non-graphql files" ++ ".",
         "  * Validated " ++ counted operations "operation" "operations" ++ "."]
  | invalid lines => "\n".intercalate ("❌ GraphQL validation errors:" :: lines)
  | badSchema error => "❌ Errors building schema: " ++ error.message
  | unscannable path error =>
      "❌ Failed to scan files at/under " ++ path ++ ": " ++
        ": ".intercalate (error.message :: error.causes)
  | unresolved path error => "❌ Failed to resolve " ++ path ++ ": " ++ error.message

end Outcome

namespace ValidateRequest

section Schemas

def loadFile (disk : Disk) (draft : Draft) (path : String) : Except SchemaError Draft :=
  match disk.readText path with
  | .error error => .error (.unreadableFile path error.message)
  | .ok text => draft.loadText text

def schema (request : ValidateRequest) (disk : Disk) : Except SchemaError Schema := do
  (← request.schemas.foldlM (loadFile disk) Draft.empty).build

end Schemas

section Collecting

/-- The full paths of the files to validate, and how many other files were found. -/
structure Selected where
  files : List String
  skipped : Nat
deriving DecidableEq

def usualExtensions : List String := ["graphql", "gql"]

def withoutDots (extension : String) : String :=
  String.ofList (extension.toList.dropWhile (· == '.'))

def wanted (request : ValidateRequest) : List String :=
  if request.extensions.isEmpty then usualExtensions else request.extensions.map withoutDots

/-- Asked of the path that leads to a file, which may be a link by another name. -/
def isWanted (request : ValidateRequest) (path : String) : Bool :=
  (Path.extension? path).any request.wanted.contains

def fullPath (disk : Disk) (path : String) : Except Outcome String :=
  (disk.resolve path).mapError (.unresolved path)

def collectEntry (request : ValidateRequest) (disk : Disk) (selected : Selected)
    (entry : Entry) : Except Outcome Selected := do
  if entry.isFile then
    if request.isWanted entry.path then
      return { selected with files := selected.files ++ [← fullPath disk entry.path] }
    else
      return { selected with skipped := selected.skipped + 1 }
  else
    return selected

def collectFrom (request : ValidateRequest) (disk : Disk) (selected : Selected)
    (path : String) : Except Outcome Selected :=
  (disk.walk path).foldlM (fun selected found => do
    request.collectEntry disk selected (← found.mapError (.unscannable path))) selected

/-- A single path that leads to a file is validated whatever its name is. -/
def orAlone (request : ValidateRequest) (disk : Disk) (found : Selected) :
    Except Outcome Selected := do
  match found.files, request.paths with
  | [], [path] =>
      if disk.isFile path then return ⟨[← fullPath disk path], found.skipped - 1⟩
      else return found
  | _, _ => return found

def collect (request : ValidateRequest) (disk : Disk) : Except Outcome Selected := do
  request.orAlone disk (← request.paths.foldlM (request.collectFrom disk) ⟨[], 0⟩)

end Collecting

section Reporting

/-- What one file adds to the report. -/
structure FileReport where
  lines : List String
  operations : Nat

def unreadable (path : String) (error : SystemError) : String :=
  "Failed to read " ++ path ++ ": " ++ error.message

def unparsed (path : String) (error : ReadError) : String :=
  "Failed to parse " ++ path ++ ": " ++ ": ".intercalate (error.message :: error.causes)

def unfinished (path : String) (fault : Fault) : String :=
  "Failed to validate " ++ path ++ ": " ++
    ": ".intercalate (fault.validationMessage :: fault.message :: fault.causes)

def findingLines (path : String) (finding : Finding) : List String :=
  match finding.places with
  | [] => [path ++ ": " ++ finding.message]
  | places => places.map fun place => path ++ ":" ++ place.text ++ ": " ++ finding.message

def report (request : ValidateRequest) (disk : Disk) (schema : Schema) (path : String) :
    FileReport :=
  match disk.readText path with
  | .error error => ⟨[unreadable path error], 0⟩
  | .ok text =>
      match Document.readExecutable text with
      | .error error => ⟨[unparsed path error], 0⟩
      | .ok document =>
          match validateWithin request.limit? schema document specifiedRules with
          | .error fault => ⟨[unfinished path fault], 0⟩
          | .ok findings => ⟨findings.flatMap (findingLines path), document.operations.length⟩

def operationCount : List FileReport → Nat
  | [] => 0
  | report :: rest => report.operations + operationCount rest

def outcome (request : ValidateRequest) (disk : Disk) (schema : Schema)
    (selected : Selected) : Outcome :=
  let reports := selected.files.map (request.report disk schema)
  match reports.flatMap FileReport.lines with
  | [] => .valid reports.length selected.skipped (operationCount reports)
  | lines => .invalid lines

def run (request : ValidateRequest) (disk : Disk) : Outcome :=
  match request.schema disk with
  | .error error => .badSchema error
  | .ok schema =>
      match request.collect disk with
      | .error outcome => outcome
      | .ok selected => request.outcome disk schema selected

end Reporting

end ValidateRequest
end GraphQL
