import GraphQL.Text.Separated

/-! A disk as a command sees it. A walk comes across whatever lies at and under a path, each
time by the path that leads there; links are followed, so that path need not be the full
path of what it leads to. All of this can fail for a reason of the system's. -/
namespace GraphQL

section Errors

inductive SystemError where
  | notFound
  | notDirectory
  | isDirectory
  | nameTooLong
  | tooManyLinks
  | nulInPath
  | notText
  | other (text : String)
deriving DecidableEq

namespace SystemError

def message : SystemError → String
  | notFound => "No such file or directory (os error 2)"
  | notDirectory => "Not a directory (os error 20)"
  | isDirectory => "Is a directory (os error 21)"
  | nameTooLong => "File name too long (os error 36)"
  | tooManyLinks => "Too many levels of symbolic links (os error 40)"
  | nulInPath => "file name contained an unexpected NUL byte"
  | notText => "stream did not contain valid UTF-8"
  | other text => text

end SystemError

inductive WalkError where
  | failed (path? : Option String) (error : SystemError)
  | loop (path ancestor : String)
deriving DecidableEq

namespace WalkError

def message : WalkError → String
  | failed none error => error.message
  | failed (some path) error => "IO error for operation on " ++ path ++ ": " ++ error.message
  | loop path ancestor =>
      "File system loop found: " ++ path ++ " points to an ancestor " ++ ancestor

def causes : WalkError → List String
  | failed _ error => [error.message]
  | loop _ _ => []

end WalkError
end Errors

structure Entry where
  path : String
  isFile : Bool

structure Disk where
  read : String → Except SystemError ByteArray
  /-- The full path of what a path leads to. -/
  resolve : String → Except SystemError String
  isFile : String → Bool
  walk : String → List (Except WalkError Entry)

section Content

def textOf (content : ByteArray) : Except SystemError String :=
  match String.fromUTF8? content with
  | some text => .ok text
  | none => .error .notText

def Disk.readText (disk : Disk) (path : String) : Except SystemError String := do
  textOf (← disk.read path)

end Content

namespace Path

def join (path name : String) : String :=
  match path.toList.getLast? with
  | none => name
  | some '/' => path ++ name
  | some _ => path ++ "/" ++ name

def full (place : List String) : String := "/" ++ "/".intercalate place

/-- The last name in a path, unless the path ends by going up. -/
def name? (path : String) : Option String :=
  let names := (Separated.parts '/' path).filter fun name => name != "" && name != "."
  names.getLast?.filter (· != "..")

/-- What follows the last dot of a name, unless nothing comes before that dot. -/
def extensionOf? (name : List Char) : Option (List Char) :=
  let back := name.reverse.span (· != '.')
  match back.2 with
  | [] => none
  | [_] => none
  | _ => some back.1.reverse

def extension? (path : String) : Option String :=
  (name? path).bind fun name => (extensionOf? name.toList).map String.ofList

end Path

end GraphQL
