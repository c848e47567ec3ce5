import GraphQL.CommandLine.FileTree
import GraphQL.CommandLine.Outcome

/-! The program: it looks at as much of the disk as its arguments name, and prints the
outcome. -/
namespace GraphQL.Program

section Looking

def systemError : IO.Error → SystemError
  | .noFileOrDirectory .. => .notFound
  | .inappropriateType .. => .isDirectory
  | error => .other error.toString

def attempt {α : Type} (action : IO α) : IO (Except SystemError α) := do
  try
    return .ok (← action)
  catch error =>
    return .error (systemError error)

def readFile (path : String) : IO ByteArray := IO.FS.readBinFile path

def fullPath (path : String) : IO String := do
  return toString (← IO.FS.realPath path)

/-- The directories of a walk stand with the paths that it came to them by. -/
def walk : Nat → List (String × String) → String → IO (List (Except WalkError Entry))
  | 0, _, path => return [.error (.failed (some path) .nameTooLong)]
  | levels + 1, ancestors, path => do
      match ← attempt (IO.FS.realPath path) with
      | .error error => return [.error (.failed (some path) error)]
      | .ok place =>
          if ← place.isDir then
            if let some ancestor := ancestors.lookup (toString place) then
              return [.error (.loop path ancestor)]
            match ← attempt place.readDir with
            | .error error => return [.ok ⟨path, false⟩, .error (.failed (some path) error)]
            | .ok names =>
                let below ← names.toList.mapM fun name =>
                  walk levels ((toString place, path) :: ancestors) (Path.join path name.fileName)
                return .ok ⟨path, false⟩ :: below.flatten
          else
            match ← attempt place.metadata with
            | .error error => return [.error (.failed (some path) error)]
            | .ok metadata => return [.ok ⟨path, metadata.type == .file⟩]

/-- What an action finds at each of some paths. -/
def table {α : Type} (action : String → IO α) (paths : List String) :
    IO (List (String × Except SystemError α)) :=
  paths.mapM fun path => do return (path, ← attempt (action path))

def lookUp {α : Type} (found : List (String × Except SystemError α)) (path : String) :
    Except SystemError α :=
  (found.lookup path).getD (.error .notFound)

def isSingleFile : List (Except WalkError Entry) → Bool
  | [.ok entry] => entry.isFile
  | _ => false

/-- As much of the disk as a request needs to see. -/
def diskFor (request : ValidateRequest) : IO Disk := do
  let walks ← request.paths.mapM fun path => do return (path, ← walk FileTree.longestPath [] path)
  let entries := (walks.flatMap Prod.snd).filterMap Except.toOption
  let wanted := (entries.map Entry.path).filter request.isWanted
  let places ← table fullPath (request.paths ++ wanted)
  let files ← table readFile (request.schemas ++ places.filterMap fun found => found.2.toOption)
  let walkOf (path : String) := (walks.lookup path).getD []
  return ⟨lookUp files, lookUp places, fun path => isSingleFile (walkOf path), walkOf⟩

end Looking

section Answering

def finish (outcome : Outcome) : IO UInt32 := do
  if outcome.succeeded then
    IO.println outcome.text
    return 0
  else
    IO.eprintln outcome.text
    return 1

def refuse (error : UsageError) : IO UInt32 := do
  if error = .help ∨ error = .version then
    IO.println error.message
    return 0
  else
    IO.eprintln ("error: " ++ error.message)
    return 2

def answer (arguments : List String) : IO UInt32 :=
  match CommandLine.read arguments with
  | .error error => refuse error
  | .ok ⟨_, none⟩ => refuse .help
  | .ok ⟨_, some request⟩ => do finish (request.run (← diskFor request))

end Answering

end GraphQL.Program

def main (arguments : List String) : IO UInt32 := GraphQL.Program.answer arguments
