import GraphQL.Proofs.RulerPoints
import GraphQL.Proofs.TokenPoints

/-! Plain texts, in which every character but a line feed takes one column. The places of
tokens and the places that the ruler measures are counted differently only for other
characters, so a plain text is in step. -/
namespace GraphQL
open Text

def Plain (text : List Char) : Prop := ∀ c ∈ text, Ruler.width c = 1

instance (text : List Char) : Decidable (Plain text) :=
  List.decidableBAll (fun c => Ruler.width c = 1) text

variable {c : Char} {before rest : List Char}

theorem plain_append : Plain (before ++ rest) ↔ Plain before ∧ Plain rest :=
  List.forall_mem_append

theorem plain_line_end (one : Ruler.width c = 1) (ends : isLineEnd c = true) : c = '\n' := by
  rw [isLineEnd, Bool.or_eq_true, beq_iff_eq, beq_iff_eq] at ends
  rcases ends with rfl | rfl
  · rfl
  · cases one

theorem plain_column (place : Position) (one : Ruler.width c = 1) :
    Ruler.next place c = Lexeme.nextInToken place c := by
  rw [Ruler.next, Lexeme.nextInToken, one]

theorem plain_token (place : Position) (plain : Plain rest) :
    Lexeme.afterToken place rest = rest.foldl Ruler.next place := by
  induction rest generalizing place with
  | nil => rfl
  | cons c rest ih =>
      obtain ⟨first, plain⟩ := List.forall_mem_cons.mp plain
      rw [List.foldl_cons, plain_column place first]
      exact ih _ plain

theorem passed_append {text : List Char} (suffix : rest <:+ text) :
    Lexeme.passed text rest ++ rest = text := by
  obtain ⟨before, rfl⟩ := suffix
  rw [Lexeme.passed, List.length_append, Nat.add_sub_cancel, List.take_left]

/-- The ruler and the count agree behind a comment that a line feed ends. -/
theorem ruler_past_comment (place : Position) {comment : List Char}
    (inside : ∀ d ∈ comment, isLineEnd d = false) :
    ('#' :: comment ++ ['\n']).foldl Ruler.next place = ⟨place.line + 1, 1⟩ := by
  have line : '\n' ∉ '#' :: comment := by
    intro member
    rcases List.mem_cons.mp member with same | member
    · cases same
    · cases inside _ member
  rw [List.foldl_append, List.foldl_cons, List.foldl_nil, Ruler.next, if_pos (beq_self_eq_true _),
    Ruler.fold_in_line place line]

/-- Behind this much of a text, the rest is in step. -/
def InStepFrom (before rest : List Char) : Prop :=
  tokenPlaces (Lexeme.ofText (before.foldl Ruler.next .start) rest) =
    (Lexeme.points rest).map (Ruler.placeOf (before ++ rest))

section Steps
variable {next : List Char} {token : Token}

theorem in_step_past_ignored (ignored : isIgnored c = true)
    (later : InStepFrom (before ++ [c]) rest) : InStepFrom before (c :: rest) := by
  rw [InStepFrom, List.foldl_append, List.append_assoc] at later
  rw [InStepFrom, Lexeme.ofText, Lexeme.points, if_pos ignored, if_pos ignored]
  exact later

theorem in_step_past_comment {comment : List Char} (inside : ∀ d ∈ comment, isLineEnd d = false)
    (later : InStepFrom (before ++ ('#' :: comment ++ ['\n'])) next) :
    InStepFrom before ('#' :: (comment ++ '\n' :: next)) := by
  have ended : ((comment ++ '\n' :: next).dropWhile fun d => !isLineEnd d) = '\n' :: next := by
    rw [List.dropWhile_append_of_pos fun d member => by rw [inside d member]; rfl]
    rfl
  have same : before ++ ('#' :: comment ++ ['\n']) ++ next =
      before ++ '#' :: (comment ++ '\n' :: next) := by simp
  obtain ⟨lexemes, points, _⟩ := past_comment ended (before.foldl Ruler.next .start)
  rw [InStepFrom, List.foldl_append, ruler_past_comment _ inside, same] at later
  rw [InStepFrom, lexemes, points, later]

theorem in_step_past_token (kept : isIgnored c = false) (other : c ≠ '#')
    (read : Lexeme.read c rest = (token, next)) (valid : token ≠ .invalid)
    (plain : Plain (Lexeme.passed (c :: rest) next))
    (later : InStepFrom (before ++ Lexeme.passed (c :: rest) next) next) :
    InStepFrom before (c :: rest) := by
  have suffix := (Lexeme.shape_of_read read valid).suffix.trans (List.suffix_cons c rest)
  obtain ⟨lexemes, points⟩ := Front.lexemes_token (before.foldl Ruler.next .start) kept other read
    valid
  rw [InStepFrom, List.foldl_append, ← plain_token _ plain, List.append_assoc,
    passed_append suffix] at later
  rw [InStepFrom, lexemes, points, Front.token_places_cons, later, List.map_cons,
    Ruler.place_of_append]

end Steps

theorem plain_in_step_from (before rest : List Char) (plain : Plain rest) :
    InStepFrom before rest := by
  match rest with
  | [] =>
      rw [InStepFrom, Lexeme.ofText, Lexeme.points]
      rfl
  | c :: rest =>
      obtain ⟨one, plain_rest⟩ := List.forall_mem_cons.mp plain
      -- Each step passes something and leaves what is behind it: an ignored character, a
      -- comment with its line end, or a token.
      by_cases ignored : isIgnored c = true
      · exact in_step_past_ignored ignored (plain_in_step_from (before ++ [c]) rest plain_rest)
      by_cases comment : c = '#'
      · subst comment
        cases ended : rest.dropWhile fun d => !isLineEnd d with
        | nil =>
            obtain ⟨lexemes, points, _⟩ := past_last_comment ended (before.foldl Ruler.next .start)
            rw [InStepFrom, lexemes, points]
            rfl
        | cons last next =>
            obtain ⟨comment, whole, inside⟩ := comment_parts ended
            have shorter : next.length < rest.length := by
              rw [whole, List.length_append, List.length_cons]
              omega
            obtain ⟨last_plain, plain_next⟩ : Ruler.width last = 1 ∧ Plain next := by
              rw [whole] at plain_rest
              exact List.forall_mem_cons.mp (List.forall_mem_append.mp plain_rest).2
            obtain rfl := plain_line_end last_plain (comment_ends ended)
            rw [whole]
            exact in_step_past_comment inside (plain_in_step_from _ next plain_next)
      · have kept : isIgnored c = false := by simpa using ignored
        rcases read : Lexeme.read c rest with ⟨token, next⟩
        by_cases valid : token = .invalid
        · have bad : (Lexeme.read c rest).1 = .invalid := by rw [read, valid]
          obtain ⟨lexemes, points⟩ := Front.lexemes_invalid (before.foldl Ruler.next .start) kept
            comment bad
          rw [InStepFrom, lexemes, points]
          rfl
        · have suffix := (Lexeme.shape_of_read read valid).suffix
          have shorter := suffix.length_le
          have whole := passed_append (suffix.trans (List.suffix_cons c rest))
          rw [← whole, plain_append] at plain
          exact in_step_past_token kept comment read valid plain.1
            (plain_in_step_from _ next plain.2)
termination_by rest.length

theorem plain_in_step {text : List Char} (plain : Plain text) : InStep text :=
  plain_in_step_from [] text plain

end GraphQL
