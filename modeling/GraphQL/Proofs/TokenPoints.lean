import GraphQL.Lexical.Header
import GraphQL.Lexical.Lexemes

/-! Two ways of counting. The places of tokens are counted while the text is cut into
tokens; the ruler counts again, from the text alone. A text is in step when both agree at
every token. Then the ruler finds every token from its place, and what the header steps
skip is what stands between the tokens. -/
namespace GraphQL

section Points
open Text

namespace Lexeme

/-- The points at which the tokens of a text start. -/
def points : List Char → List (List Char)
  | [] => []
  | c :: rest =>
      if isIgnored c then points rest
      else if c == '#' then
        match _h : rest.dropWhile fun d => !isLineEnd d with
        | [] => []
        | _ :: next => points next
      else
        match _h : read c rest with
        | (.invalid, _) => []
        | (_, next) => (c :: rest) :: points next
termination_by text => text.length
decreasing_by
  · exact Nat.lt_succ_self rest.length
  · have shorter := (List.dropWhile_sublist (fun d => !isLineEnd d) (l := rest)).length_le
    rw [_h] at shorter
    simp only [List.length_cons] at shorter ⊢
    omega
  · have shorter := read_length c rest
    rw [_h] at shorter
    exact Nat.lt_succ_of_le shorter

end Lexeme

/-- The places of the tokens but for the mark at the end, which is no token. -/
def tokenPlaces (lexemes : List Lexeme) : List Position :=
  (lexemes.map Lexeme.place).dropLast

/-- The ruler measures every token at its place. -/
def InStep (text : List Char) : Prop :=
  tokenPlaces (Lexeme.ofText .start text) = (Lexeme.points text).map (Ruler.placeOf text)

end Points

section Skipping
open Text Header
variable {c : Char} {rest tail : List Char}

theorem after_comment_eq (rest : List Char) :
    afterComment rest = rest.dropWhile fun d => !isLineEnd d := rfl

theorem skip_ignored_head (skipped : skipIgnored rest = c :: tail) :
    isIgnored c = false ∧ c ≠ '#' := by
  fun_induction skipIgnored rest with
  | case1 => cases skipped
  | case2 d rest ignored ih => exact ih skipped
  | case3 d rest ignored comment ih => exact ih skipped
  | case4 d rest kept other =>
      cases skipped
      exact ⟨by simpa using kept, by simpa using other⟩

theorem skip_ignored_suffix (rest : List Char) : skipIgnored rest <:+ rest := by
  fun_induction skipIgnored rest with
  | case1 => exact List.suffix_refl _
  | case2 d rest ignored ih => exact ih.trans (List.suffix_cons _ _)
  | case3 d rest ignored comment ih =>
      exact ih.trans ((List.dropWhile_suffix _).trans (List.suffix_cons _ _))
  | case4 => exact List.suffix_refl _

theorem skip_ignored_twice (rest : List Char) :
    skipIgnored (skipIgnored rest) = skipIgnored rest := by
  fun_induction skipIgnored rest with
  | case1 => rw [skipIgnored]
  | case2 d rest ignored ih => exact ih
  | case3 d rest ignored comment ih => exact ih
  | case4 d rest kept other => rw [skipIgnored, if_neg kept, if_neg other]

theorem comment_ends {last : Char} {next : List Char}
    (ended : (rest.dropWhile fun d => !isLineEnd d) = last :: next) : isLineEnd last = true := by
  have stopped := List.head?_dropWhile_not (fun d => !isLineEnd d) rest
  rw [ended] at stopped
  simpa using stopped

theorem comment_parts {last : Char} {next : List Char}
    (ended : (rest.dropWhile fun d => !isLineEnd d) = last :: next) :
    ∃ comment, rest = comment ++ last :: next ∧ ∀ d ∈ comment, isLineEnd d = false := by
  refine ⟨rest.takeWhile fun d => !isLineEnd d, ?_, fun d member => ?_⟩
  · rw [← ended, List.takeWhile_append_dropWhile]
  · simpa using List.all_eq_true.mp List.all_takeWhile d member

theorem past_comment {last : Char} {next : List Char}
    (ended : (rest.dropWhile fun d => !isLineEnd d) = last :: next) (place : Position) :
    Lexeme.ofText place ('#' :: rest) = Lexeme.ofText ⟨place.line + 1, 1⟩ next ∧
      Lexeme.points ('#' :: rest) = Lexeme.points next ∧
      skipIgnored ('#' :: rest) = skipIgnored next := by
  have line_end := comment_ends ended
  have ignored : isIgnored last = true := by simp [isIgnored, line_end]
  refine ⟨?_, ?_, ?_⟩
  · rw [Lexeme.ofText, if_neg (by decide), if_pos (beq_self_eq_true _)]
    split <;> simp_all
  · rw [Lexeme.points, if_neg (by decide), if_pos (beq_self_eq_true _)]
    split <;> simp_all
  · rw [skipIgnored, if_neg (by decide), if_pos (beq_self_eq_true _), after_comment_eq, ended, skipIgnored,
      if_pos ignored]

theorem past_last_comment (ended : (rest.dropWhile fun d => !isLineEnd d) = [])
    (place : Position) :
    Lexeme.ofText place ('#' :: rest) = [⟨.finish, place⟩] ∧
      Lexeme.points ('#' :: rest) = [] ∧ skipIgnored ('#' :: rest) = [] := by
  refine ⟨?_, ?_, ?_⟩
  · rw [Lexeme.ofText, if_neg (by decide), if_pos (beq_self_eq_true _)]
    split <;> simp_all
  · rw [Lexeme.points, if_neg (by decide), if_pos (beq_self_eq_true _)]
    split <;> simp_all
  · rw [skipIgnored, if_neg (by decide), if_pos (beq_self_eq_true _), after_comment_eq, ended, skipIgnored]

/-- Tokens are cut from where the header steps skip to. -/
theorem lexemes_skip (place : Position) (rest : List Char) :
    (∃ after, Lexeme.ofText place rest = Lexeme.ofText after (skipIgnored rest)) ∧
      Lexeme.points rest = Lexeme.points (skipIgnored rest) := by
  match rest with
  | [] =>
      rw [skipIgnored]
      exact ⟨⟨place, rfl⟩, rfl⟩
  | c :: rest =>
      by_cases ignored : isIgnored c = true
      · rw [Lexeme.ofText, Lexeme.points, skipIgnored, if_pos ignored, if_pos ignored,
          if_pos ignored]
        exact lexemes_skip _ rest
      · by_cases comment : c = '#'
        · subst comment
          cases ended : rest.dropWhile fun d => !isLineEnd d with
          | nil =>
              obtain ⟨lexemes, points, skipped⟩ := past_last_comment ended place
              rw [lexemes, points, skipped]
              exact ⟨⟨place, by rw [Lexeme.ofText]⟩, by rw [Lexeme.points]⟩
          | cons last next =>
              obtain ⟨lexemes, points, skipped⟩ := past_comment ended place
              rw [lexemes, points, skipped]
              have shorter : next.length < rest.length := by
                have below := (List.dropWhile_sublist (fun d => !isLineEnd d) (l := rest)).length_le
                rw [ended] at below
                exact below
              exact lexemes_skip _ next
        · rw [skipIgnored, if_neg ignored, if_neg (by simpa using comment)]
          exact ⟨⟨place, rfl⟩, rfl⟩
termination_by rest.length

end Skipping

/-! What a token is made of. -/
section Shapes
open Text

theorem StringValue.after_block_suffix {escaped : Bool} {text rest : List Char}
    (ended : afterBlock? escaped text = some rest) : rest <:+ text := by
  fun_induction afterBlock? escaped text with
  | case1 tail ih => exact (ih ended).trans ⟨['"', '"', '"'], rfl⟩
  | case2 escaped tail plain =>
      cases ended
      exact ⟨['"', '"', '"'], rfl⟩
  | case3 escaped c tail other ih => exact (ih ended).trans (List.suffix_cons _ _)
  | case4 => cases ended

theorem StringValue.after_quoted_suffix {escaped : Bool} {text rest : List Char}
    (ended : afterQuoted? escaped text = some rest) : rest <:+ text := by
  fun_induction afterQuoted? escaped text with
  | case1 => cases ended
  | case2 escaped c tail close =>
      cases ended
      exact List.suffix_cons _ _
  | case3 => cases ended
  | case4 escaped c tail kept inside ih => exact (ih ended).trans (List.suffix_cons _ _)

theorem StringValue.after_suffix {text rest : List Char} (ended : after? text = some rest) :
    rest <:+ text := by
  unfold after? at ended
  split at ended
  · exact (after_block_suffix ended).trans ⟨['"', '"'], rfl⟩
  · exact after_quoted_suffix ended

namespace Lexeme

/-- A character, the text behind it, the token that starts with it, and the text behind
the token. -/
inductive Shape : Char → List Char → Token → List Char → Prop where
  | punct {c : Char} {tail : List Char} (is : isPunct c = true) : Shape c tail (.punct c) tail
  | spread {next : List Char} : Shape '.' ('.' :: '.' :: next) .spread next
  | name {c : Char} {tail : List Char} (starts : isNameStart c = true) :
      Shape c tail (.name (String.ofList (c :: tail.takeWhile isNamePart)))
        (tail.dropWhile isNamePart)
  | number {c : Char} {tail : List Char} {value : Number} (starts : c = '-' ∨ c.isDigit = true)
      (denotes : Number.ofWord? (c :: tail.takeWhile fun d => !Number.endsNumber d) =
        some value) :
      Shape c tail (.number value) (tail.dropWhile fun d => !Number.endsNumber d)
  | string {tail next : List Char} {value : String} (ends : StringValue.after? tail = some next) :
      Shape '"' tail (.string value) next

variable {c : Char} {tail next : List Char} {token : Token}

theorem string_shape (read : readString tail = (token, next)) (valid : token ≠ .invalid) :
    ∃ value, token = .string value ∧ StringValue.after? tail = some next := by
  unfold readString at read
  split at read
  · split at read
    · next ended =>
      cases read
      exact ⟨_, rfl, ended⟩
    · cases read
      exact absurd rfl valid
  · next other =>
    split at read
    · next ended =>
      have reached : StringValue.after? tail = some next := by
        cases read
        rw [StringValue.after?]
        · exact ended
        · exact other
      have made := congrArg Prod.fst read
      simp only [ofQuoted] at made
      split at made
      · exact ⟨_, made.symm, reached⟩
      · exact absurd made.symm valid
    · cases read
      exact absurd rfl valid

theorem shape_of_read (read : Lexeme.read c tail = (token, next)) (valid : token ≠ .invalid) :
    Shape c tail token next := by
  unfold Lexeme.read at read
  split at read
  · next is =>
    cases read
    exact .punct is
  split at read
  · next dot =>
    obtain rfl : c = '.' := by simpa using dot
    split at read
    · cases read
      exact .spread
    · cases read
      exact absurd rfl valid
  split at read
  · next starts =>
    cases read
    exact .name starts
  split at read
  · next starts =>
    unfold ofNumber at read
    split at read
    · next denotes =>
      cases read
      exact .number (by simpa using starts) denotes
    · cases read
      exact absurd rfl valid
  split at read
  · next quote =>
    obtain rfl : c = '"' := by simpa using quote
    obtain ⟨value, rfl, ended⟩ := string_shape read valid
    exact .string ended
  · cases read
    exact absurd rfl valid

theorem Shape.suffix (shape : Shape c tail token next) : next <:+ tail := by
  cases shape with
  | punct => exact List.suffix_refl _
  | spread => exact ⟨['.', '.'], rfl⟩
  | name => exact List.dropWhile_suffix _
  | number => exact List.dropWhile_suffix _
  | string ended => exact StringValue.after_suffix ended

theorem Shape.of_quote (shape : Shape '"' tail token next) : ∃ value, token = .string value := by
  cases shape with
  | punct is => exact absurd is (by decide)
  | name starts => exact absurd starts (by decide)
  | number starts => exact absurd starts (by decide)
  | string => exact ⟨_, rfl⟩

end Lexeme
end Shapes

/-! Reading a text that is in step. -/
section Fronts
open Text Header
variable {text : List Char}

/-- How far a text is read: a point, and the place that was counted for it. From there on
every token is in step. -/
structure Front (text : List Char) where
  rest : List Char
  place : Position
  suffix : rest <:+ text
  in_step : tokenPlaces (Lexeme.ofText place rest) =
    (Lexeme.points rest).map (Ruler.placeOf text)

namespace Front

def lexemes (front : Front text) : List Lexeme := Lexeme.ofText front.place front.rest

/-- Where the ruler finds the next token. -/
def here (front : Front text) : Position := Ruler.placeOf text (skipIgnored front.rest)

def start (in_step : InStep text) : Front text := ⟨text, .start, List.suffix_refl _, in_step⟩

/-- The next token, and how far the text is read after it. -/
structure Takes (front : Front text) (token : Token) (next : Front text) : Prop where
  lexemes : front.lexemes = ⟨token, front.here⟩ :: next.lexemes
  shape : ∃ c tail, skipIgnored front.rest = c :: tail ∧ Lexeme.Shape c tail token next.rest

theorem lexemes_ne_nil (place : Position) (rest : List Char) : Lexeme.ofText place rest ≠ [] := by
  fun_induction Lexeme.ofText place rest with
  | case2 place c rest ignored ih => exact ih
  | case4 place c rest kept comment last next ended ih => exact ih
  | _ => exact List.cons_ne_nil _ _

theorem token_places_cons (lexeme : Lexeme) (place : Position) (rest : List Char) :
    tokenPlaces (lexeme :: Lexeme.ofText place rest) =
      lexeme.place :: tokenPlaces (Lexeme.ofText place rest) := by
  rw [tokenPlaces, List.map_cons, List.dropLast_cons_of_ne_nil]
  · rfl
  · simpa using lexemes_ne_nil place rest

theorem lexemes_invalid {c : Char} {tail : List Char} (place : Position)
    (kept : isIgnored c = false) (other : c ≠ '#') (bad : (Lexeme.read c tail).1 = .invalid) :
    Lexeme.ofText place (c :: tail) = [⟨.invalid, place⟩] ∧ Lexeme.points (c :: tail) = [] := by
  constructor
  · rw [Lexeme.ofText, if_neg (by simp [kept]), if_neg (by simpa using other)]
    split
    · rfl
    · next token next ended read =>
      rw [read] at bad
      exact absurd bad ended
  · rw [Lexeme.points, if_neg (by simp [kept]), if_neg (by simpa using other)]
    split
    · rfl
    · next token next ended read =>
      rw [read] at bad
      exact absurd bad ended

theorem lexemes_token {c : Char} {tail next : List Char} {token : Token} (place : Position)
    (kept : isIgnored c = false) (other : c ≠ '#') (read : Lexeme.read c tail = (token, next))
    (valid : token ≠ .invalid) :
    Lexeme.ofText place (c :: tail) = ⟨token, place⟩ ::
        Lexeme.ofText (Lexeme.afterToken place (Lexeme.passed (c :: tail) next)) next ∧
      Lexeme.points (c :: tail) = (c :: tail) :: Lexeme.points next := by
  constructor
  · rw [Lexeme.ofText, if_neg (by simp [kept]), if_neg (by simpa using other)]
    split
    · next bad =>
      rw [read] at bad
      cases bad
      exact absurd rfl valid
    · next found _ ended same =>
      rw [read] at same
      cases same
      rfl
  · rw [Lexeme.points, if_neg (by simp [kept]), if_neg (by simpa using other)]
    split
    · next bad =>
      rw [read] at bad
      cases bad
      exact absurd rfl valid
    · next found _ ended same =>
      rw [read] at same
      cases same
      rfl

/-- A text ends, or does not go on as a text can, or there is a token. -/
theorem cases (front : Front text) :
    (skipIgnored front.rest = [] ∧ ∃ place, front.lexemes = [⟨.finish, place⟩]) ∨
    (∃ c tail place, skipIgnored front.rest = c :: tail ∧
      (Lexeme.read c tail).1 = .invalid ∧ front.lexemes = [⟨.invalid, place⟩]) ∨
    ∃ token next, front.Takes token next := by
  obtain ⟨⟨after, lexemes⟩, points⟩ := lexemes_skip front.place front.rest
  have in_step := front.in_step
  rw [lexemes, points] at in_step
  rcases skipped : skipIgnored front.rest with _ | ⟨c, tail⟩
  · apply Or.inl
    refine ⟨rfl, after, ?_⟩
    rw [Front.lexemes, lexemes, skipped, Lexeme.ofText]
  · obtain ⟨kept, other⟩ := skip_ignored_head skipped
    rw [skipped] at lexemes in_step
    rcases read : Lexeme.read c tail with ⟨token, rest⟩
    by_cases valid : token = .invalid
    · have bad : (Lexeme.read c tail).1 = .invalid := by rw [read, valid]
      have single := (lexemes_invalid after kept other bad).1
      exact .inr (.inl ⟨c, tail, after, rfl, bad, lexemes.trans single⟩)
    · obtain ⟨taken, first⟩ := lexemes_token after kept other read valid
      have shape := Lexeme.shape_of_read read valid
      -- The first of the places is that of this token, on both sides; the others are those of
      -- the tokens behind it.
      rw [taken, first, token_places_cons, List.map_cons] at in_step
      obtain ⟨agrees, in_step⟩ := List.cons.inj in_step
      have suffix : rest <:+ text := by
        have tail_suffix : c :: tail <:+ front.rest := skipped ▸ skip_ignored_suffix front.rest
        exact shape.suffix.trans ((List.suffix_cons _ _).trans (tail_suffix.trans front.suffix))
      let next : Front text := ⟨rest, _, suffix, in_step⟩
      refine .inr (.inr ⟨token, next, ?_, c, tail, skipped, shape⟩)
      rw [Front.here, skipped, ← agrees]
      exact lexemes.trans taken

end Front
end Fronts
end GraphQL
