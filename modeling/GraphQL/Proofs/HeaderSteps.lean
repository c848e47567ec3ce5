import GraphQL.Proofs.RulerPoints
import GraphQL.Proofs.TokenPoints

/-! How the steps over a header go along with the tokens of a text that is in step: a step
that looks for a token leads to the point behind it, and what stands in parentheses is
passed as a whole, because strings and comments hide the parentheses in them. -/
namespace GraphQL
open Text Header

section Characters
variable {c : Char}

/-- The characters that mean something to a group in parentheses. -/
def groupMarks : List Char := ['"', '#', '(', ')']

theorem unmarked {test : Char → Bool} (unmarks : groupMarks.any test = false)
    (passes : test c = true) : c ∉ groupMarks := by
  intro mark
  have found := List.any_eq_true.mpr ⟨c, mark, passes⟩
  rw [unmarks] at found
  cases found

theorem name_part_unmarked (part : isNamePart c = true) : c ∉ groupMarks :=
  unmarked (by decide) part

theorem ignored_unmarked (ignored : isIgnored c = true) : c ∉ groupMarks :=
  unmarked (by decide) ignored

theorem punct_unmarked (is : Lexeme.isPunct c = true) (opening : c ≠ '(') (closing : c ≠ ')') :
    c ∉ groupMarks := by
  have only : groupMarks.filter Lexeme.isPunct = ['(', ')'] := by decide
  intro mark
  have both : c ∈ groupMarks.filter Lexeme.isPunct := List.mem_filter.mpr ⟨mark, is⟩
  rw [only] at both
  simp [opening, closing] at both

theorem punct_starts_nothing_else (is : Lexeme.isPunct c = true) :
    isNameStart c = false ∧ c ≠ '.' ∧ c ≠ '-' ∧ c.isDigit = false ∧ c ≠ '"' := by
  have nothing : ("()[]\x7b\x7d!$:=@|&".toList.all fun d =>
      !isNameStart d && d != '.' && d != '-' && !d.isDigit && d != '"') = true := by
    decide
  simpa [and_assoc] using List.all_eq_true.mp nothing c (List.contains_iff_mem.mp is)

theorem shape_of_punct {tail next : List Char} {token : Token} (is : Lexeme.isPunct c = true)
    (shape : Lexeme.Shape c tail token next) : token = .punct c ∧ next = tail := by
  obtain ⟨name, dot, minus, digit, quote⟩ := punct_starts_nothing_else is
  cases shape with
  | punct => exact ⟨rfl, rfl⟩
  | spread => exact absurd rfl dot
  | name starts =>
      rw [name] at starts
      cases starts
  | number starts =>
      rcases starts with starts | starts
      · exact absurd starts minus
      · rw [digit] at starts
        cases starts
  | string => exact absurd rfl quote

end Characters

/-! A number that denotes something is spelled with few characters. -/
section Numerals
open Number

def isNumeral (c : Char) : Bool :=
  c.isDigit || c == '-' || c == '+' || c == '.' || c == 'e' || c == 'E'

theorem numeral_of_digits {digits : List Char} (all : digits.all Char.isDigit = true) :
    digits.all isNumeral = true := by
  rw [List.all_eq_true] at all ⊢
  intro c member
  simp [isNumeral, all c member]

theorem numeral_of_natural {digits : List Char} (natural : isNatural digits = true) :
    digits.all isNumeral = true := by
  apply numeral_of_digits
  unfold isNatural at natural
  split at natural
  · cases natural
  · decide
  · next first rest single =>
    simp only [Bool.and_eq_true] at natural
    rw [List.all_cons, natural.1.2, natural.2, Bool.and_self]

theorem numeral_of_whole {word : List Char} (whole : isWhole word = true) :
    word.all isNumeral = true := by
  unfold isWhole at whole
  split at whole
  · rw [List.all_cons, numeral_of_natural whole]
    decide
  · exact numeral_of_natural whole

theorem numeral_of_fraction {digits : List Char} (fraction : isFraction digits = true) :
    digits.all isNumeral = true := by
  rw [isFraction, Bool.and_eq_true] at fraction
  exact numeral_of_digits fraction.2

theorem numeral_of_exponent {word : List Char} (exponent : isExponent word = true) :
    word.all isNumeral = true := by
  unfold isExponent at exponent
  split at exponent
  · rfl
  · next first rest =>
    rw [List.all_cons, Bool.and_eq_true]
    split at exponent
    · next sign =>
      refine ⟨?_, numeral_of_fraction exponent⟩
      simp only [Bool.or_eq_true, beq_iff_eq] at sign
      rcases sign with rfl | rfl <;> decide
    · simp only [Bool.and_eq_true, decide_eq_true_eq] at exponent
      obtain ⟨⟨low, high⟩, rest⟩ := exponent
      refine ⟨?_, numeral_of_digits rest⟩
      have digit : first.isDigit = true := by
        rw [Char.isDigit, Bool.and_eq_true, decide_eq_true_eq, decide_eq_true_eq]
        constructor
        · exact UInt32.le_trans (by decide) low
        · exact UInt32.le_trans high (by decide)
      simp [isNumeral, digit]

theorem split_last_eq {test : Char → Bool} {word before after : List Char}
    (split : splitLast test word = some (before, after)) :
    ∃ c, test c = true ∧ word = before ++ c :: after := by
  induction word generalizing before with
  | nil => cases split
  | cons d rest ih =>
      rw [splitLast] at split
      cases found : splitLast test rest with
      | some parts =>
          obtain ⟨first, last⟩ := parts
          rw [found] at split
          cases split
          obtain ⟨c, is, rfl⟩ := ih found
          exact ⟨c, is, rfl⟩
      | none =>
          rw [found] at split
          dsimp only at split
          split at split
          · next is =>
            cases split
            exact ⟨d, is, rfl⟩
          · cases split

theorem numeral_of_unscaled {mantissa exponent : List Char} {number : Number}
    (denotes : ofUnscaled? mantissa exponent = some number) : mantissa.all isNumeral = true := by
  unfold ofUnscaled? at denotes
  split at denotes
  · next digits fraction parts =>
    obtain ⟨c, dot, rfl⟩ := split_last_eq parts
    split at denotes
    · next fit =>
      rw [Bool.and_eq_true] at fit
      rw [List.all_append, List.all_cons, numeral_of_whole fit.1, numeral_of_fraction fit.2,
        beq_iff_eq.mp dot]
      decide
    · cases denotes
  · split at denotes
    · next whole => exact numeral_of_whole whole
    · cases denotes

theorem numeral_of_word {word : List Char} {number : Number} (denotes : ofWord? word = some number) :
    word.all isNumeral = true := by
  unfold ofWord? at denotes
  split at denotes
  · next mantissa exponent parts =>
    obtain ⟨c, mark, rfl⟩ := split_last_eq parts
    split at denotes
    · next scaled =>
      rw [List.all_append, List.all_cons, numeral_of_unscaled denotes, numeral_of_exponent scaled]
      simp only [Bool.or_eq_true, beq_iff_eq] at mark
      rcases mark with rfl | rfl <;> decide
    · cases denotes
  · split at denotes
    · exact numeral_of_unscaled denotes
    · split at denotes
      · next whole =>
        simp only [Bool.and_eq_true] at whole
        exact numeral_of_whole whole.1.1
      · cases denotes

theorem numeral_unmarked {c : Char} (numeral : isNumeral c = true) : c ∉ groupMarks :=
  unmarked (by decide) numeral

end Numerals

section Groups
variable {c : Char} {rest : List Char} {depth : Nat}

theorem group_unmarked (plain : c ∉ groupMarks) :
    afterGroup? depth (c :: rest) = afterGroup? depth rest := by
  simp only [groupMarks, List.mem_cons, List.not_mem_nil, or_false, not_or] at plain
  obtain ⟨quote, comment, opening, closing⟩ := plain
  rw [after_group_cons, if_neg (by simpa using quote), if_neg (by simpa using comment),
    if_neg (by simpa using opening), if_neg (by simpa using closing)]

theorem group_all_unmarked {passed : List Char} (plain : ∀ c ∈ passed, c ∉ groupMarks) :
    afterGroup? depth (passed ++ rest) = afterGroup? depth rest := by
  induction passed with
  | nil => rfl
  | cons c passed ih =>
      obtain ⟨first, later⟩ := List.forall_mem_cons.mp plain
      rw [List.cons_append, group_unmarked first, ih later]

theorem group_comment : afterGroup? depth ('#' :: rest) = afterGroup? depth (afterComment rest) := by
  rw [after_group_cons]
  rfl

theorem group_string {next : List Char} (ended : StringValue.after? rest = some next) :
    afterGroup? depth ('"' :: rest) = afterGroup? depth next := by
  rw [after_group_cons, ended]
  rfl

theorem group_open : afterGroup? depth ('(' :: rest) = afterGroup? (depth + 1) rest := by
  rw [after_group_cons]
  rfl

theorem group_close : afterGroup? (depth + 2) (')' :: rest) = afterGroup? (depth + 1) rest := by
  rw [after_group_cons]
  rfl

theorem group_close_last : afterGroup? 1 (')' :: rest) = some rest := by
  rw [after_group_cons]
  rfl

theorem group_skip (depth : Nat) (rest : List Char) :
    afterGroup? depth (skipIgnored rest) = afterGroup? depth rest := by
  fun_induction skipIgnored rest with
  | case1 => rfl
  | case2 d rest ignored ih => rw [ih, group_unmarked (ignored_unmarked ignored)]
  | case3 d rest kept comment ih =>
      obtain rfl : d = '#' := by simpa using comment
      rw [ih, group_comment]
  | case4 => rfl

/-- A group goes on behind a token that is not a parenthesis. -/
theorem group_token {tail next : List Char} {token : Token}
    (shape : Lexeme.Shape c tail token next) (opening : token ≠ .punct '(')
    (closing : token ≠ .punct ')') (depth : Nat) :
    afterGroup? depth (c :: tail) = afterGroup? depth next := by
  cases shape with
  | punct is =>
      apply group_unmarked
      apply punct_unmarked is
      · exact fun same => opening (congrArg Token.punct same)
      · exact fun same => closing (congrArg Token.punct same)
  | spread =>
      have dots : ∀ d ∈ ['.', '.', '.'], d ∉ groupMarks := by
        intro d member
        obtain rfl : d = '.' := by simpa using member
        decide
      exact group_all_unmarked dots
  | name starts =>
      have word : ∀ d ∈ c :: tail.takeWhile isNamePart, d ∉ groupMarks := by
        intro d member
        rcases List.mem_cons.mp member with rfl | later
        · exact name_part_unmarked (name_start_part d starts)
        · exact name_part_unmarked (List.all_eq_true.mp List.all_takeWhile d later)
      -- A name and a number hold none of the marks, so they are passed character by character.
      have split : c :: tail = (c :: tail.takeWhile isNamePart) ++ tail.dropWhile isNamePart := by
        rw [List.cons_append, List.takeWhile_append_dropWhile]
      rw [split, group_all_unmarked word]
  | number starts denotes =>
      have word := fun d member => numeral_unmarked
        (List.all_eq_true.mp (numeral_of_word denotes) d member)
      have split : c :: tail = (c :: tail.takeWhile fun d => !Number.endsNumber d) ++
          tail.dropWhile fun d => !Number.endsNumber d := by
        rw [List.cons_append, List.takeWhile_append_dropWhile]
      rw [split, group_all_unmarked word]
  | string ended => exact group_string ended

theorem without_group (none : ∀ tail, rest ≠ '(' :: tail) : afterOptionalGroup? rest = some rest := by
  unfold afterOptionalGroup?
  split
  · next tail => exact absurd rfl (none tail)
  · rfl

theorem without_directive (none : ∀ tail, rest ≠ '@' :: tail) : afterDirectives? rest = some rest := by
  unfold afterDirectives?
  split
  · next tail => exact absurd rfl (none tail)
  · rfl

theorem without_string (none : ∀ tail, skipIgnored rest ≠ '"' :: tail) :
    step rest .optionalString = some (skipIgnored rest) := by
  rcases skipped : skipIgnored rest with _ | ⟨d, tail⟩
  · simp only [step_optional_string, skipped]
  · have other : d ≠ '"' := fun same => none tail (same ▸ skipped)
    simp [step_optional_string, skipped, other]

theorem without_punct (none : ∀ tail, skipIgnored rest ≠ c :: tail) :
    step rest (.optionalPunct c) = some (skipIgnored rest) := by
  rcases skipped : skipIgnored rest with _ | ⟨d, tail⟩
  · simp only [step_optional_punct, skipped]
  · have other : (d == c) = false := beq_false_of_ne fun same => none tail (same ▸ skipped)
    simp only [step_optional_punct, skipped, other, Bool.false_eq_true, if_false]

theorem past_directive {called behind : List Char} (named : afterName? (skipIgnored rest) = some called)
    (grouped : afterOptionalGroup? (skipIgnored called) = some behind) :
    afterDirectives? ('@' :: rest) = afterDirectives? (skipIgnored behind) := by
  rw [afterDirectives?]
  split
  · next missing =>
    rw [named] at missing
    cases missing
  · next found =>
    rw [named] at found
    cases found
    split
    · next missing =>
      rw [grouped] at missing
      cases missing
    · next found =>
      rw [grouped] at found
      cases found
      rfl

end Groups

namespace Front
variable {text : List Char} {front next last : Front text} {token : Token}

section Tokens
variable {c : Char} {word : String}

theorem Takes.punct (takes : front.Takes (.punct c) next) :
    skipIgnored front.rest = c :: next.rest := by
  obtain ⟨d, tail, skipped, shape⟩ := takes.shape
  cases shape with
  | punct is => exact skipped

theorem Takes.name (takes : front.Takes (.name word) next) :
    afterName? (skipIgnored front.rest) = some next.rest ∧
      leadingName (skipIgnored front.rest) = word := by
  obtain ⟨d, tail, skipped, shape⟩ := takes.shape
  rw [skipped]
  generalize rest : next.rest = behind at shape
  cases shape with
  | name starts =>
      constructor
      · rw [afterName?, if_pos starts]
      · rw [leadingName, List.takeWhile_cons_of_pos (name_start_part d starts)]

theorem Takes.string {value : String} (takes : front.Takes (.string value) next) :
    ∃ tail, skipIgnored front.rest = '"' :: tail ∧ StringValue.after? tail = some next.rest := by
  obtain ⟨d, tail, skipped, shape⟩ := takes.shape
  cases shape with
  | string ended => exact ⟨tail, skipped, ended⟩

theorem Takes.shortens (takes : front.Takes token next) :
    (skipIgnored next.rest).length < (skipIgnored front.rest).length := by
  obtain ⟨d, tail, skipped, shape⟩ := takes.shape
  rw [skipped, List.length_cons]
  exact Nat.lt_succ_of_le (Nat.le_trans (skip_ignored_length _) shape.suffix.length_le)

/-- A character that is not taken next does not stand there. -/
theorem not_next (is : Lexeme.isPunct c = true) (none : ∀ next, ¬front.Takes (.punct c) next)
    (tail : List Char) : skipIgnored front.rest ≠ c :: tail := by
  intro skipped
  rcases front.cases with ⟨ended, _⟩ | ⟨d, _, _, other, bad, _⟩ | ⟨token, next, takes⟩
  · rw [ended] at skipped
    cases skipped
  · rw [skipped] at other
    cases other
    unfold Lexeme.read at bad
    rw [if_pos is] at bad
    cases bad
  · obtain ⟨d, _, other, shape⟩ := takes.shape
    rw [skipped] at other
    cases other
    obtain ⟨rfl, _⟩ := shape_of_punct is shape
    exact none next takes

end Tokens

section Steps
variable {wanted : Step} {c : Char} {word : String}

theorem step_skip (rest : List Char) (wanted : Step) :
    step (skipIgnored rest) wanted = step rest wanted := by
  unfold step
  rw [skip_ignored_twice]

theorem steps_skip (rest : List Char) (wanted : List Step) :
    steps (skipIgnored rest) wanted = steps rest wanted := by
  cases wanted with
  | nil => rw [steps, steps, skip_ignored_twice]
  | cons first more => rw [steps, steps, step_skip]

/-- The step goes from one front to another, whatever the steps after it are. -/
def Leads (front : Front text) (wanted : Step) (next : Front text) : Prop :=
  ∀ more, steps front.rest (wanted :: more) = steps next.rest more

theorem leads_of_step (stepped : step front.rest wanted = some next.rest) :
    front.Leads wanted next := by
  intro more
  rw [steps, stepped, Option.bind_some]

theorem leads_nowhere (stepped : step front.rest wanted = some (skipIgnored front.rest)) :
    front.Leads wanted front := by
  intro more
  rw [steps, stepped, Option.bind_some, steps_skip]

theorem Takes.leads_punct (takes : front.Takes (.punct c) next) :
    front.Leads (.punct c) next := by
  apply leads_of_step
  simp only [step_punct, takes.punct, beq_self_eq_true, if_true]

theorem Takes.leads_name (takes : front.Takes (.name word) next) : front.Leads .name next :=
  leads_of_step takes.name.1

theorem Takes.leads_keyword (takes : front.Takes (.name word) next) :
    front.Leads (.keyword word) next := by
  apply leads_of_step
  simp only [step_keyword, takes.name.2, beq_self_eq_true, if_true]
  exact takes.name.1

theorem Takes.leads_string {value : String} (takes : front.Takes (.string value) next) :
    front.Leads .optionalString next := by
  obtain ⟨tail, skipped, ended⟩ := takes.string
  apply leads_of_step
  rw [step_optional_string, skipped]
  exact ended

theorem leads_without_string (none : ∀ tail, skipIgnored front.rest ≠ '"' :: tail) :
    front.Leads .optionalString front := leads_nowhere (without_string none)

theorem Takes.leads_optional_punct (takes : front.Takes (.punct c) next) :
    front.Leads (.optionalPunct c) next := by
  apply leads_of_step
  simp only [step_optional_punct, takes.punct, beq_self_eq_true, if_true]

theorem leads_without_punct (none : ∀ tail, skipIgnored front.rest ≠ c :: tail) :
    front.Leads (.optionalPunct c) front := leads_nowhere (without_punct none)

/-- There is a token to go on with. -/
def Continues (front : Front text) : Prop := ∃ token next, front.Takes token next

theorem Takes.continues (takes : front.Takes token next) : front.Continues :=
  ⟨token, next, takes⟩

/-- The ruler leads from the place of the next token to that token. -/
theorem Continues.seek (continues : front.Continues) (wanted : List Step) :
    seek text front.here wanted = steps front.rest wanted := by
  obtain ⟨token, next, takes⟩ := continues
  obtain ⟨c, tail, skipped, _⟩ := takes.shape
  obtain ⟨before, whole⟩ : c :: tail <:+ text :=
    skipped ▸ (skip_ignored_suffix front.rest).trans front.suffix
  -- The ruler may stop at characters without width in front of the token, but those are
  -- skipped by the first step, like everything between tokens.
  obtain ⟨narrow, flat, found⟩ := Ruler.rest_at_place_of before c tail
  have skip : skipIgnored (narrow ++ c :: tail) = skipIgnored (c :: tail) := by
    clear found
    induction narrow with
    | nil => rfl
    | cons d narrow ih =>
        obtain ⟨first, later⟩ := List.forall_mem_cons.mp flat
        rw [List.cons_append, skipIgnored, if_pos (Ruler.ignored_of_no_width first), ih later]
  rw [whole] at found
  rw [Header.seek, Front.here, skipped, found, Option.bind_some, ← steps_skip, skip, ← skipped,
    steps_skip, steps_skip]

end Steps

section Passing

/-- Tokens of which a group holds as many opening as closing parentheses. -/
structure Passes (front next : Front text) : Prop where
  shorter : next.lexemes.length ≤ front.lexemes.length
  group : ∀ depth, afterGroup? (depth + 1) front.rest = afterGroup? (depth + 1) next.rest

theorem Passes.refl (front : Front text) : front.Passes front := ⟨Nat.le_refl _, fun _ => rfl⟩

theorem Passes.trans (first : front.Passes next) (second : next.Passes last) :
    front.Passes last :=
  ⟨Nat.le_trans second.shorter first.shorter,
    fun depth => (first.group depth).trans (second.group depth)⟩

theorem Takes.shorter (takes : front.Takes token next) :
    next.lexemes.length < front.lexemes.length := by
  rw [takes.lexemes]
  exact Nat.lt_succ_self _

theorem Takes.passes (takes : front.Takes token next) (opening : token ≠ .punct '(')
    (closing : token ≠ .punct ')') : front.Passes next := by
  constructor
  · exact Nat.le_of_lt takes.shorter
  · intro depth
    obtain ⟨c, tail, skipped, shape⟩ := takes.shape
    rw [← group_skip, skipped, group_token shape opening closing]

theorem Takes.passes_punct {c : Char} (takes : front.Takes (.punct c) next) (opening : c ≠ '(')
    (closing : c ≠ ')') : front.Passes next :=
  takes.passes (fun same => opening (Token.punct.inj same))
    (fun same => closing (Token.punct.inj same))

theorem Takes.passes_name {word : String} (takes : front.Takes (.name word) next) :
    front.Passes next := takes.passes nofun nofun

section Groups
variable {inside closing : Front text}

theorem Passes.grouped (body : inside.Passes closing) (opens : front.Takes (.punct '(') inside)
    (closes : closing.Takes (.punct ')') next) : front.Passes next := by
  constructor
  · have first := opens.shorter
    have last := closes.shorter
    have within := body.shorter
    omega
  · intro depth
    rw [← group_skip, opens.punct, group_open, body.group, ← group_skip, closes.punct, group_close]

theorem Passes.leads_group (body : inside.Passes closing)
    (opens : front.Takes (.punct '(') inside) (closes : closing.Takes (.punct ')') next) :
    front.Leads .optionalGroup next := by
  apply leads_of_step
  have passed : afterGroup? 1 inside.rest = some next.rest := by
    rw [body.group, ← group_skip, closes.punct, group_close_last]
  rw [step_optional_group, opens.punct]
  exact passed

theorem leads_without_group (none : ∀ tail, skipIgnored front.rest ≠ '(' :: tail) :
    front.Leads .optionalGroup front := by
  apply leads_nowhere
  rw [step_optional_group, without_group none]

end Groups

section Directives
variable {sign name : Front text} {word : String}

theorem passed_directive (signs : front.Takes (.punct '@') sign)
    (names : sign.Takes (.name word) name) (leads : name.Leads .optionalGroup next) :
    afterDirectives? (skipIgnored front.rest) = afterDirectives? (skipIgnored next.rest) := by
  -- The step over the group ends at some point from which the same token is next.
  have stepped := leads []
  rw [steps, steps, Option.bind_eq_some_iff] at stepped
  obtain ⟨behind, grouped, same⟩ := stepped
  rw [steps, Option.some.injEq] at same
  rw [step_optional_group] at grouped
  rw [signs.punct, past_directive names.name.1 grouped, same]

theorem leads_past_directives (none : ∀ tail, skipIgnored next.rest ≠ '@' :: tail)
    (passed : afterDirectives? (skipIgnored front.rest) =
      afterDirectives? (skipIgnored next.rest)) : front.Leads .directives next := by
  have ended := without_directive none
  intro more
  have stepped : step front.rest .directives = some (skipIgnored next.rest) := by
    rw [step_directives, passed, ended]
  rw [steps, stepped, Option.bind_some, steps_skip]

end Directives
end Passing
end Front
end GraphQL
