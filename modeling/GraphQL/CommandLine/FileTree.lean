import GraphQL.CommandLine.Disk

/-! A disk as a tree of directories, files and links. A path is followed name by name from
the root or from where the command runs; every name but the last has to lead to a directory,
and so does the last one if the path goes on behind it. A link stands for the path that it
holds, followed from the directory of the link. -/
namespace GraphQL

inductive FileTree where
  | file (content : ByteArray)
  | directory (entries : List (String × FileTree))
  | link (target : String)

namespace FileTree

section Contents

def empty : FileTree := .directory []

def entries? : FileTree → Option (List (String × FileTree))
  | directory entries => some entries
  | _ => none

def child? (tree : FileTree) (name : String) : Option FileTree :=
  tree.entries?.bind fun entries => entries.lookup name

def at? (tree : FileTree) (place : List String) : Option FileTree :=
  place.foldlM child? tree

def replace (name : String) (child : FileTree) (entry : String × FileTree) : String × FileTree :=
  if entry.1 = name then (name, child) else entry

/-- A new name goes to the front, so a directory lists what it got last first. -/
def put (name : String) (child : FileTree) (entries : List (String × FileTree)) :
    List (String × FileTree) :=
  if (entries.lookup name).isSome then entries.map (replace name child)
  else (name, child) :: entries

/-- Changes what is at a place; the directories on the way are made where they lack. -/
def update (change : FileTree → FileTree) : List String → FileTree → FileTree
  | [], tree => change tree
  | name :: rest, tree =>
      let child := update change rest ((tree.child? name).getD empty)
      .directory (put name child (tree.entries?.getD []))

def addFile (content : ByteArray) (place : List String) (tree : FileTree) : FileTree :=
  tree.update (fun _ => .file content) place

def addDirectory (place : List String) (tree : FileTree) : FileTree :=
  tree.update (fun there => .directory (there.entries?.getD [])) place

end Contents

section Paths

def longestName : Nat := 255

def longestPath : Nat := 4095

def mostLinks : Nat := 40

/-- A place that a path has led to, and how many links it may still follow. -/
structure Stop where
  place : List String
  links : Nat

def startOf (here : List String) (path : String) : List String :=
  if path.toList.head? = some '/' then [] else here

/-- Links in the path of a link lie one level deeper. -/
def step (tree : FileTree) : Nat → Stop → String → Except SystemError Stop
  | depth, stop, name =>
      match (tree.at? stop.place).bind entries? with
      | none => .error .notDirectory
      | some entries =>
          if name = "" ∨ name = "." then .ok stop
          else if name = ".." then .ok { stop with place := stop.place.dropLast }
          else if longestName < name.utf8ByteSize then .error .nameTooLong
          else
            match entries.lookup name with
            | none => .error .notFound
            | some (.link target) =>
                match depth, stop.links with
                | depth + 1, links + 1 =>
                    (Separated.parts '/' target).foldlM (tree.step depth)
                      ⟨startOf stop.place target, links⟩
                | _, _ => .error .tooManyLinks
            | some _ => .ok { stop with place := stop.place ++ [name] }

/-- The place that a path leads to. -/
def resolve (tree : FileTree) (here : List String) (path : String) :
    Except SystemError (List String) :=
  if path.toList.contains '\x00' then .error .nulInPath
  else if path.isEmpty then .error .notFound
  else if longestPath < path.utf8ByteSize then .error .nameTooLong
  else do
    let stop ← (Separated.parts '/' path).foldlM (tree.step mostLinks)
      ⟨startOf here path, mostLinks⟩
    return stop.place

end Paths

section Access
variable (tree : FileTree) (here : List String)

def readAt (path : String) : Except SystemError ByteArray := do
  match tree.at? (← tree.resolve here path) with
  | some (.file content) => .ok content
  | some (.directory _) => .error .isDirectory
  | _ => .error .notFound

def isFileAt (path : String) : Bool :=
  match tree.resolve here path with
  | .error _ => false
  | .ok place =>
      match tree.at? place with
      | some (.file _) => true
      | _ => false

/-- A walk goes down as many levels at most. It stops at a directory that it is in already. -/
def walkAt : Nat → List (List String × String) → String → List (Except WalkError Entry)
  | 0, _, path => [.error (.failed (some path) .nameTooLong)]
  | levels + 1, ancestors, path =>
      match tree.resolve here path with
      | .error error => [.error (.failed (some path) error)]
      | .ok place =>
          match (tree.at? place).bind entries?, ancestors.lookup place with
          | none, _ => [.ok ⟨path, tree.isFileAt here path⟩]
          | some _, some ancestor => [.error (.loop path ancestor)]
          | some entries, none =>
              .ok ⟨path, false⟩ :: entries.flatMap fun entry =>
                walkAt levels ((place, path) :: ancestors) (Path.join path entry.1)

def disk : Disk where
  read := tree.readAt here
  resolve path := (tree.resolve here path).map Path.full
  isFile := tree.isFileAt here
  walk := tree.walkAt here longestPath []

end Access

end FileTree
end GraphQL
