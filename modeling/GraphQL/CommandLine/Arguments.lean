import GraphQL.Text.Separated

/-! The command line: what is asked for, or what is wrong with the asking. An option
takes its value from behind an equals sign or from the arguments that follow it. What it
has taken is checked when the next option or path is met or the line ends, so an
argument that is not known is reported before the values right in front of it. -/
namespace GraphQL

section Requests

structure ValidateRequest where
  schemas : List String
  extensions : List String
  limit? : Option Nat
  paths : List String

structure Request where
  verbose : Bool
  validate? : Option ValidateRequest

inductive UsageError where
  | unknownArgument (argument : String)
  | unknownCommand (word : String)
  | missingArgument (argument : String)
  | missingValue (argument : String)
  | needlessValue (option : String)
  | repeatedOption (option : String)
  | notANumber (text : String)
  | help
  | version
deriving DecidableEq

namespace UsageError

def message : UsageError → String
  | unknownArgument argument => "unexpected argument '" ++ argument ++ "' found"
  | unknownCommand word => "unrecognized subcommand '" ++ word ++ "'"
  | missingArgument argument => "a required argument was not provided: " ++ argument
  | missingValue argument => "a value is required for '" ++ argument ++ "' but none was supplied"
  | needlessValue option => "unexpected value for '" ++ option ++ "' found"
  | repeatedOption option => "the argument '" ++ option ++ "' cannot be used multiple times"
  | notANumber text => "invalid value '" ++ text ++ "' for '--max-errors'"
  | help => "graphql [-v] validate --schema FILE... [--max-errors N] " ++
      "[--graphql-file-exts EXT,...] [--] PATH..."
  | version => "graphql 0.1.1"

end UsageError
end Requests

namespace CommandLine

section Shapes

inductive Shape where
  | separator
  | long (name : String) (value? : Option String)
  | short (flags : List Char)
  | word

/-- A single dash is a word. -/
def shape (argument : String) : Shape :=
  match argument.toList with
  | ['-', '-'] => .separator
  | '-' :: '-' :: rest =>
      match Separated.splitFirst '=' rest with
      | (name, value?) => .long (String.ofList name) (value?.map String.ofList)
  | '-' :: flag :: flags => .short (flag :: flags)
  | _ => .word

end Shapes

section Values

inductive Slot where
  | schema
  | extensions
  | limit
  | path
deriving DecidableEq

namespace Slot

def name : Slot → String
  | schema => "--schema"
  | extensions => "--graphql-file-exts"
  | limit => "--max-errors"
  | path => "PATH"

def ofOption? (word : String) : Option Slot :=
  [schema, extensions, limit].find? fun slot => slot.name == "--" ++ word

/-- Schemas are taken until an option follows; other options take one value. -/
def takesAfter (slot : Slot) (taken : Nat) : Bool := slot == schema || taken == 0

end Slot

def digit? (c : Char) : Option Nat := if c.isDigit then some (c.toNat - '0'.toNat) else none

def addDigit (sum : Nat) (c : Char) : Option Nat := (digit? c).map fun d => 10 * sum + d

def wordSize : Nat := 18446744073709551616

/-- Digits, behind a plus sign or not, of a number that a machine word holds. -/
def number? (text : String) : Option Nat :=
  let digits := match text.toList with
    | '+' :: rest => rest
    | all => all
  if digits.isEmpty then none else (digits.foldlM addDigit 0).filter (· < wordSize)

def noneEmpty (slot : Slot) (texts : List String) : Except UsageError (List String) :=
  if texts.any String.isEmpty then .error (.missingValue slot.name) else .ok texts

def setLimit (request : ValidateRequest) (text : String) : Except UsageError ValidateRequest :=
  match request.limit?, number? text with
  | some _, _ => .error (.repeatedOption Slot.limit.name)
  | none, some n => .ok { request with limit? := some n }
  | none, none => .error (.notANumber text)

def accept (request : ValidateRequest) (slot : Slot) (values : List String) :
    Except UsageError ValidateRequest :=
  let items := values.flatMap (Separated.parts ',')
  if values.isEmpty then .error (.missingValue slot.name)
  else
    match slot with
    | .schema => do
        return { request with schemas := request.schemas ++ (← noneEmpty slot items) }
    | .extensions => .ok { request with extensions := request.extensions ++ items }
    | .limit => values.foldlM setLimit request
    | .path => do
        return { request with paths := request.paths ++ (← noneEmpty slot values) }

end Values

section Reading

/-- A slot that was met last, and the values it has taken. -/
structure Pending where
  slot : Slot
  values : List String

structure Reading where
  request : ValidateRequest
  pending? : Option Pending

namespace Reading

def start : Reading := ⟨⟨[], [], none, []⟩, none⟩

def settle (reading : Reading) : Except UsageError Reading :=
  match reading.pending? with
  | none => .ok reading
  | some pending =>
      (accept reading.request pending.slot pending.values).map fun request => ⟨request, none⟩

def turn (reading : Reading) (slot : Slot) (values : List String) : Except UsageError Reading := do
  return ⟨(← reading.settle).request, some ⟨slot, values⟩⟩

def option (reading : Reading) (slot : Slot) : Option String → Except UsageError Reading
  | none => reading.turn slot []
  | some value => do (← reading.turn slot [value]).settle

def path (reading : Reading) (text : String) : Except UsageError Reading :=
  match reading.pending? with
  | some ⟨.path, values⟩ => .ok { reading with pending? := some ⟨.path, values ++ [text]⟩ }
  | _ => reading.turn .path [text]

def word (reading : Reading) (text : String) : Except UsageError Reading :=
  match reading.pending? with
  | some ⟨slot, values⟩ =>
      if slot != .path && slot.takesAfter values.length then
        .ok { reading with pending? := some ⟨slot, values ++ [text]⟩ }
      else reading.path text
  | none => reading.path text

def helped (reading : Reading) : Except UsageError Reading := do
  let _ ← reading.settle
  .error .help

def long (reading : Reading) (argument name : String) (value? : Option String) :
    Except UsageError Reading :=
  match Slot.ofOption? name, name, value? with
  | some slot, _, _ => reading.option slot value?
  | none, "help", none => reading.helped
  | none, "help", some _ => .error (.needlessValue "--help")
  | none, _, _ => .error (.unknownArgument argument)

def read (reading : Reading) : List String → Except UsageError Reading
  | [] => reading.settle
  | argument :: rest =>
      match shape argument with
      | .separator => do (← rest.foldlM path reading).settle
      | .long name value? => do (← reading.long argument name value?).read rest
      | .short ('h' :: _) => reading.helped
      | .short _ => .error (.unknownArgument argument)
      | .word => do (← reading.word argument).read rest

end Reading

def readValidate (arguments : List String) : Except UsageError ValidateRequest := do
  let request := (← Reading.start.read arguments).request
  if request.schemas.isEmpty then .error (.missingArgument Slot.schema.name)
  else if request.paths.isEmpty then .error (.missingArgument Slot.path.name)
  else .ok request

end Reading

section Commands

def setVerbose (verbose : Bool) : Except UsageError Bool :=
  if verbose then .error (.repeatedOption "--verbose") else .ok true

def readFlags (verbose : Bool) : List Char → Except UsageError Bool
  | [] => .ok verbose
  | 'v' :: rest => do readFlags (← setVerbose verbose) rest
  | 'h' :: _ => .error .help
  | 'V' :: _ => .error .version
  | flag :: _ => .error (.unknownArgument ("-" ++ String.singleton flag))

def readLong (verbose : Bool) (argument : String) :
    String → Option String → Except UsageError Bool
  | "verbose", none => setVerbose verbose
  | "help", none => .error .help
  | "version", none => .error .version
  | name, some _ =>
      if ["verbose", "help", "version"].contains name then .error (.needlessValue ("--" ++ name))
      else .error (.unknownArgument argument)
  | _, none => .error (.unknownArgument argument)

def commands : List String := ["validate", "help"]

def helpAbout : List String → UsageError
  | [] => .help
  | [word] => if commands.contains word then .help else .unknownCommand word
  | _ :: word :: _ => .unknownCommand word

/-- A command does not stand behind the separator. -/
def afterSeparator (verbose : Bool) : List String → Except UsageError Request
  | [] => .ok ⟨verbose, none⟩
  | word :: _ =>
      if commands.contains word then .error (.unknownArgument word)
      else .error (.unknownCommand word)

def readFrom (verbose : Bool) : List String → Except UsageError Request
  | [] => .ok ⟨verbose, none⟩
  | "validate" :: rest => (readValidate rest).map fun request => ⟨verbose, some request⟩
  | "help" :: rest => .error (helpAbout rest)
  | argument :: rest =>
      match shape argument with
      | .separator => afterSeparator verbose rest
      | .long name value? => do readFrom (← readLong verbose argument name value?) rest
      | .short flags => do readFrom (← readFlags verbose flags) rest
      | .word => .error (.unknownCommand argument)

def read (arguments : List String) : Except UsageError Request := readFrom false arguments

end Commands

end CommandLine
end GraphQL
