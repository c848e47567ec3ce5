import GraphQL.Text.Characters
import GraphQL.Text.Ruler
import GraphQL.Text.StringValue

/-! Stepping over the header of a definition, from a place in the text that is known to
the first token after the header. Every step checks the token it passes, so a text that
does not read as expected gives nothing instead of a wrong point.

A point is what is left to read, so a step leads from a text to one of its suffixes. -/
namespace GraphQL.Header
open Text

inductive Step where
  | directives
  | keyword (word : String)
  | name
  | optionalGroup
  | optionalPunct (c : Char)
  | optionalString
  | punct (c : Char)

section Tokens

def afterComment (text : List Char) : List Char :=
  text.dropWhile fun c => !isLineEnd c

theorem after_comment_length (text : List Char) :
    (afterComment text).length ≤ text.length :=
  (List.dropWhile_sublist _).length_le

def skipIgnored : List Char → List Char
  | [] => []
  | c :: rest =>
      if isIgnored c then skipIgnored rest
      else if c == '#' then skipIgnored (afterComment rest)
      else c :: rest
termination_by text => text.length
decreasing_by
  · simp
  · exact Nat.lt_succ_of_le (after_comment_length rest)

def afterName? : List Char → Option (List Char)
  | c :: rest => if isNameStart c then some (rest.dropWhile isNamePart) else none
  | [] => none

def leadingName (text : List Char) : String :=
  String.ofList (text.takeWhile isNamePart)

/-- Reads on from a point inside parentheses to the end of the outermost of them.
Strings and comments are passed as a whole, whatever they hold. -/
def afterGroup? (depth : Nat) : List Char → Option (List Char)
  | [] => none
  | c :: rest =>
      if c == '"' then
        match _h : StringValue.after? rest with
        | some next => afterGroup? depth next
        | none => none
      else if c == '#' then afterGroup? depth (afterComment rest)
      else if c == '(' then afterGroup? (depth + 1) rest
      else if c == ')' then
        match depth with
        | 0 => none
        | 1 => some rest
        | inner + 2 => afterGroup? (inner + 1) rest
      else afterGroup? depth rest
termination_by text => text.length
decreasing_by
  · exact Nat.lt_succ_of_le (StringValue.after_length _ _ _h)
  · exact Nat.lt_succ_of_le (after_comment_length rest)
  all_goals simp

theorem after_group_nil (depth : Nat) : afterGroup? depth [] = none := by
  rw [afterGroup?.eq_def]

theorem after_group_cons (depth : Nat) (c : Char) (rest : List Char) :
    afterGroup? depth (c :: rest) =
      if c == '"' then (StringValue.after? rest).bind (afterGroup? depth)
      else if c == '#' then afterGroup? depth (afterComment rest)
      else if c == '(' then afterGroup? (depth + 1) rest
      else if c == ')' then
        match depth with
        | 0 => none
        | 1 => some rest
        | inner + 2 => afterGroup? (inner + 1) rest
      else afterGroup? depth rest := by
  rw [afterGroup?.eq_def]
  dsimp only
  congr 1
  split
  next next ended => rw [ended]; rfl
  next none => rw [none]; rfl

def afterOptionalGroup? : List Char → Option (List Char)
  | '(' :: rest => afterGroup? 1 rest
  | text => some text

end Tokens

section Steps

theorem skip_ignored_length (text : List Char) : (skipIgnored text).length ≤ text.length := by
  fun_induction skipIgnored text with
  | case1 => simp
  | case2 c rest _ ih => exact Nat.le_succ_of_le ih
  | case3 c rest _ _ ih =>
      exact Nat.le_succ_of_le (Nat.le_trans ih (after_comment_length rest))
  | case4 => simp

theorem after_name_length (text rest : List Char)
    (h : afterName? text = some rest) : rest.length < text.length := by
  unfold afterName? at h
  split at h
  · split at h
    · simp only [Option.some.injEq] at h
      subst h
      exact Nat.lt_succ_of_le (List.dropWhile_sublist _).length_le
    · simp at h
  · simp at h

theorem after_group_length (depth : Nat) (text rest : List Char)
    (h : afterGroup? depth text = some rest) : rest.length ≤ text.length := by
  fun_induction afterGroup? depth text with
  | case1 => simp at h
  | case2 depth c tail _ next found ih =>
      exact Nat.le_succ_of_le (Nat.le_trans (ih h) (StringValue.after_length _ _ found))
  | case3 => simp at h
  | case4 depth c tail _ _ ih =>
      exact Nat.le_succ_of_le (Nat.le_trans (ih h) (after_comment_length tail))
  | case5 depth c tail _ _ _ ih => exact Nat.le_succ_of_le (ih h)
  | case6 => simp at h
  | case7 => simp_all
  | case8 c tail _ _ _ _ inner ih => exact Nat.le_succ_of_le (ih h)
  | case9 depth c tail _ _ _ _ ih => exact Nat.le_succ_of_le (ih h)

theorem after_optional_group_length (text rest : List Char)
    (h : afterOptionalGroup? text = some rest) : rest.length ≤ text.length := by
  unfold afterOptionalGroup? at h
  split at h
  · exact Nat.le_succ_of_le (after_group_length _ _ _ h)
  · simp_all

/-- Passes any number of directives, each a name with optional arguments. -/
def afterDirectives? : List Char → Option (List Char)
  | '@' :: rest =>
      match _named : afterName? (skipIgnored rest) with
      | none => none
      | some called =>
          match _grouped : afterOptionalGroup? (skipIgnored called) with
          | none => none
          | some next => afterDirectives? (skipIgnored next)
  | text => some text
termination_by text => text.length
decreasing_by
  have name := after_name_length _ _ _named
  have group := after_optional_group_length _ _ _grouped
  have first := skip_ignored_length rest
  have second := skip_ignored_length called
  have third := skip_ignored_length next
  simp only [List.length_cons]
  omega

def step (text : List Char) (wanted : Step) : Option (List Char) :=
  let text := skipIgnored text
  match wanted, text with
  | .directives, _ => afterDirectives? text
  | .keyword word, _ => if leadingName text == word then afterName? text else none
  | .name, _ => afterName? text
  | .optionalGroup, _ => afterOptionalGroup? text
  | .optionalPunct c, first :: rest => some (if first == c then rest else text)
  | .optionalPunct _, [] => some []
  | .optionalString, '"' :: rest => StringValue.after? rest
  | .optionalString, _ => some text
  | .punct c, first :: rest => if first == c then some rest else none
  | .punct _, [] => none

section Step
variable (text : List Char) (c : Char)

theorem step_directives : step text .directives = afterDirectives? (skipIgnored text) := rfl

theorem step_keyword (word : String) :
    step text (.keyword word) =
      if leadingName (skipIgnored text) == word then afterName? (skipIgnored text) else none := rfl

theorem step_name : step text .name = afterName? (skipIgnored text) := rfl

theorem step_optional_group :
    step text .optionalGroup = afterOptionalGroup? (skipIgnored text) := rfl

theorem step_optional_punct :
    step text (.optionalPunct c) = some (match skipIgnored text with
      | first :: rest => if first == c then rest else first :: rest
      | [] => []) := by
  unfold step
  cases skipIgnored text <;> rfl

theorem step_optional_string :
    step text .optionalString = match skipIgnored text with
      | '"' :: rest => StringValue.after? rest
      | rest => some rest := by
  unfold step
  cases skipIgnored text with
  | nil => rfl
  | cons first rest => by_cases quote : first = '"' <;> simp [quote]

theorem step_punct :
    step text (.punct c) = match skipIgnored text with
      | first :: rest => if first == c then some rest else none
      | [] => none := by
  unfold step
  cases skipIgnored text <;> rfl

end Step

def steps (text : List Char) : List Step → Option (List Char)
  | [] => some (skipIgnored text)
  | wanted :: rest => (step text wanted).bind (steps · rest)

def seek (text : List Char) (place : Position) (wanted : List Step) : Option (List Char) :=
  (Ruler.restAt text place).bind (steps · wanted)

end Steps

section Names

def namePlace? (text : List Char) (point : Option (List Char)) (name : String) :
    Option Position :=
  point.bind fun rest =>
    if (afterName? rest).isSome && leadingName rest == name then
      some (Ruler.placeOf text rest)
    else none

def afterSeparator? (separator : Char) (point : List Char) : Option (List Char) :=
  steps point [.name, .punct separator]

/-- The points of so many names in a row, as far as the text goes along. -/
def separatedNames (separator : Char) : Nat → Option (List Char) → List (Option (List Char))
  | 0, _ => []
  | count + 1, point =>
      point :: separatedNames separator count (point.bind (afterSeparator? separator))

/-- The entries of a schema definition: the word for the operation and the point of
the type's name. -/
def rootEntries : Nat → List Char → List (String × List Char)
  | 0, _ => []
  | room + 1, text =>
      match steps text [.name, .punct ':'] with
      | none => []
      | some type =>
          match step type .name with
          | none => []
          | some next => (leadingName text, type) :: rootEntries room (skipIgnored next)

def rootTypes (text : List Char) (place : Position) : List (String × List Char) :=
  match seek text place [.keyword "schema", .directives, .punct '{'] with
  | some inside => rootEntries inside.length inside
  | none => []

end Names

end GraphQL.Header
