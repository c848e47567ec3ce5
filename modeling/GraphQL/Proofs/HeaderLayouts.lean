import GraphQL.Proofs.HeaderSteps

/-! How a header may be laid out. The grammar of tokens and of the text between them is written
down here without the functions that read them, and a layout of a list of steps is a text in which
every step is written by its tokens. Whatever a layout looks like, the steps lead from its start
to the token behind it. -/
namespace GraphQL.Header
open Text

/-! The grammar. A text and the rest of it behind a token stand for the token, because where a
token ends can depend on what follows. -/
section Grammar

/-- Text between tokens. A comment goes on up to a line end. -/
inductive Ignored : List Char → Prop where
  | none : Ignored []
  | char {c : Char} {later : List Char} (ignored : isIgnored c = true) (gap : Ignored later) :
      Ignored (c :: later)
  | comment {words later : List Char} {last : Char}
      (words_on_line : ∀ c ∈ words, isLineEnd c = false) (ends : isLineEnd last = true)
      (gap : Ignored (last :: later)) :
      Ignored ('#' :: (words ++ last :: later))

def StartsToken (c : Char) : Prop := isIgnored c = false ∧ c ≠ '#'

instance (c : Char) : Decidable (StartsToken c) := instDecidableAnd

def Next (c : Char) (text : List Char) : Prop := ∃ gap tail, Ignored gap ∧ text = gap ++ c :: tail

inductive NameText : String → List Char → List Char → Prop where
  | name {c : Char} {word rest : List Char} (starts : isNameStart c = true)
      (parts : ∀ d ∈ word, isNamePart d = true)
      (ends : ∀ d tail, rest = d :: tail → isNamePart d = false) :
      NameText (String.ofList (c :: word)) (c :: (word ++ rest)) rest

inductive QuotedText : List Char → Prop where
  | none : QuotedText []
  | char {c : Char} {later : List Char} (quote : c ≠ '"') (backslash : c ≠ '\\') (feed : c ≠ '\n')
      (more : QuotedText later) : QuotedText (c :: later)
  | escape {c : Char} {later : List Char} (feed : c ≠ '\n') (more : QuotedText later) :
      QuotedText ('\\' :: c :: later)

/-- What stands behind the opening quotes of a block string, up to its end and with the rest. -/
inductive BlockText : List Char → List Char → Prop where
  | close {rest : List Char} : BlockText ('"' :: '"' :: '"' :: rest) rest
  | escape {text rest : List Char} (more : BlockText text rest) :
      BlockText ('\\' :: '"' :: '"' :: '"' :: text) rest
  | char {c : Char} {text rest : List Char} (no_end : ¬['"', '"', '"'] <+: c :: text)
      (no_escape : ¬['\\', '"', '"', '"'] <+: c :: text) (more : BlockText text rest) :
      BlockText (c :: text) rest

/-- Two quotes are an empty string only if no third one follows. -/
inductive StringText : List Char → List Char → Prop where
  | quoted {inside rest : List Char} (content : QuotedText inside)
      (apart : inside = [] → ∀ tail, rest ≠ '"' :: tail) :
      StringText ('"' :: (inside ++ '"' :: rest)) rest
  | block {text rest : List Char} (content : BlockText text rest) :
      StringText ('"' :: '"' :: '"' :: text) rest

/-- All tokens but parentheses. A number is made of characters that numbers are made of. -/
inductive TokenText : List Char → List Char → Prop where
  | punct {c : Char} {rest : List Char} (is : Lexeme.isPunct c = true) (opening : c ≠ '(')
      (closing : c ≠ ')') : TokenText (c :: rest) rest
  | spread {rest : List Char} : TokenText ('.' :: '.' :: '.' :: rest) rest
  | name {word : String} {text rest : List Char} (name : NameText word text rest) :
      TokenText text rest
  | number {word rest : List Char} (numeral : ∀ c ∈ word, isNumeral c = true) :
      TokenText (word ++ rest) rest
  | string {text rest : List Char} (string : StringText text rest) : TokenText text rest

/-- Tokens of which as many are opening as closing parentheses. -/
inductive Balanced : List Char → List Char → Prop where
  | done {rest : List Char} : Balanced rest rest
  | ignored {passed text rest : List Char} (gap : Ignored passed) (more : Balanced text rest) :
      Balanced (passed ++ text) rest
  | token {text next rest : List Char} (token : TokenText text next) (more : Balanced next rest) :
      Balanced text rest
  | group {text next rest : List Char} (inside : Balanced text (')' :: next))
      (more : Balanced next rest) : Balanced ('(' :: text) rest

/-- Balanced tokens in parentheses, which may be left out where no parenthesis comes next. -/
inductive GroupText : List Char → List Char → Prop where
  | given {passed text rest : List Char} (gap : Ignored passed)
      (inside : Balanced text (')' :: rest)) : GroupText (passed ++ '(' :: text) rest
  | left_out {text : List Char} (absent : ¬Next '(' text) : GroupText text text

/-- Directives, as many as there are: with fewer, one text would have several tokens behind it. -/
inductive DirectivesText : List Char → List Char → Prop where
  | none {text : List Char} (absent : ¬Next '@' text) : DirectivesText text text
  | directive {passed passed' text called next rest : List Char} {word : String}
      (gap : Ignored passed) (gap' : Ignored passed') (name : NameText word text called)
      (arguments : GroupText called next) (more : DirectivesText next rest) :
      DirectivesText (passed ++ '@' :: (passed' ++ text)) rest

/-- How a step is written. What a step may do without is left out only where the next token does
not start like it. -/
inductive Written : Step → List Char → List Char → Prop where
  | name {passed text rest : List Char} {word : String} (gap : Ignored passed)
      (name : NameText word text rest) : Written .name (passed ++ text) rest
  | keyword {passed text rest : List Char} {word : String} (gap : Ignored passed)
      (name : NameText word text rest) : Written (.keyword word) (passed ++ text) rest
  | punct {passed rest : List Char} {c : Char} (gap : Ignored passed) (starts : StartsToken c) :
      Written (.punct c) (passed ++ c :: rest) rest
  | optionalPunct {passed rest : List Char} {c : Char} (gap : Ignored passed)
      (starts : StartsToken c) : Written (.optionalPunct c) (passed ++ c :: rest) rest
  | noPunct {c : Char} {text : List Char} (absent : ¬Next c text) :
      Written (.optionalPunct c) text text
  | optionalString {passed text rest : List Char} (gap : Ignored passed)
      (string : StringText text rest) : Written .optionalString (passed ++ text) rest
  | noString {text : List Char} (absent : ¬Next '"' text) : Written .optionalString text text
  | optionalGroup {text rest : List Char} (group : GroupText text rest) :
      Written .optionalGroup text rest
  | directives {text rest : List Char} (directives : DirectivesText text rest) :
      Written .directives text rest

/-- Steps that are written one behind the other, and the token behind them. -/
inductive Layout : List Step → List Char → List Char → Prop where
  | token {passed tail : List Char} {c : Char} (gap : Ignored passed) (starts : StartsToken c) :
      Layout [] (passed ++ c :: tail) (c :: tail)
  | step {wanted : Step} {more : List Step} {text next token : List Char}
      (written : Written wanted text next) (later : Layout more next token) :
      Layout (wanted :: more) text token

end Grammar

section Gaps
variable {passed text rest tail : List Char} {c : Char}

theorem skip_gap (gap : Ignored passed) : skipIgnored (passed ++ text) = skipIgnored text := by
  induction gap with
  | none => rfl
  | char ignored gap ih => rw [List.cons_append, skipIgnored, if_pos ignored, ih]
  | @comment words later last words_on_line ends gap ih =>
      have stops : afterComment (words ++ (last :: later ++ text)) = last :: later ++ text := by
        rw [after_comment_eq, List.dropWhile_append_of_pos (by simpa using words_on_line),
          List.cons_append, List.dropWhile_cons_of_neg (by simpa using ends)]
      rw [List.cons_append, List.append_assoc, skipIgnored, if_neg (by decide),
        if_pos (beq_self_eq_true _), stops, ih]

theorem skip_start (starts : StartsToken c) : skipIgnored (c :: tail) = c :: tail := by
  rw [skipIgnored, if_neg (by simp [starts.1]), if_neg (by simpa using starts.2)]

theorem skip_to_start (gap : Ignored passed) (starts : StartsToken c) :
    skipIgnored (passed ++ c :: tail) = c :: tail := by
  rw [skip_gap gap, skip_start starts]

theorem next_of_skipped (skipped : skipIgnored text = c :: tail) : Next c text := by
  fun_induction skipIgnored text with
  | case1 => cases skipped
  | case2 d text ignored ih =>
      obtain ⟨gap, tail', between, rfl⟩ := ih skipped
      exact ⟨d :: gap, tail', .char ignored between, rfl⟩
  | case3 d text kept comment ih =>
      obtain rfl : d = '#' := by simpa using comment
      obtain ⟨gap, tail', between, behind⟩ := ih skipped
      have token : isIgnored c = false := (skip_ignored_head skipped).1
      rw [after_comment_eq] at behind
      cases gap with
      | nil =>
          -- The comment cannot end right at the token, for it ends at a line end.
          have ends : isLineEnd c = true := comment_ends behind
          simp [isIgnored, ends] at token
      | cons last later =>
          have ends : isLineEnd last = true := comment_ends behind
          obtain ⟨words, rfl, words_on_line⟩ := comment_parts behind
          exact ⟨'#' :: (words ++ last :: later), tail', .comment words_on_line ends between,
            by simp⟩
  | case4 d text kept other =>
      cases skipped
      exact ⟨[], tail, .none, rfl⟩

theorem not_skipped (absent : ¬Next c text) (tail : List Char) : skipIgnored text ≠ c :: tail :=
  fun skipped => absent (next_of_skipped skipped)

theorem other_next {d : Char} (gap : Ignored passed) (starts : StartsToken d) (start : StartsToken c)
    (other : d ≠ c) : ¬Next c (passed ++ d :: tail) := by
  rintro ⟨gap', tail', between, same⟩
  have skipped : skipIgnored (passed ++ d :: tail) = d :: tail := skip_to_start gap starts
  rw [same, skip_to_start between start] at skipped
  exact other (List.cons.inj skipped).1.symm

end Gaps

section Tokens
variable {text called next rest : List Char} {word : String}

theorem name_start_kept {c : Char} (starts : isNameStart c = true) : isIgnored c = false := by
  rw [Bool.eq_false_iff]
  intro ignored
  simp only [isIgnored, isLineEnd, isByteOrderMark, Bool.or_eq_true, beq_iff_eq] at ignored
  rcases ignored with (((rfl | rfl) | rfl) | (rfl | rfl)) | rfl <;> cases starts

theorem name_starts_token {c : Char} (starts : isNameStart c = true) : StartsToken c := by
  refine ⟨name_start_kept starts, ?_⟩
  rintro rfl
  cases starts

theorem NameText.parts (name : NameText word text rest) :
    ∃ c tail, text = c :: tail ∧ isNameStart c = true ∧
      word = String.ofList (text.takeWhile isNamePart) ∧ rest = tail.dropWhile isNamePart := by
  cases name with
  | @name c word rest starts parts ends =>
      have stops : rest.takeWhile isNamePart = [] ∧ rest.dropWhile isNamePart = rest := by
        cases rest with
        | nil => exact ⟨rfl, rfl⟩
        | cons d tail => simp [ends d tail rfl]
      refine ⟨c, word ++ rest, rfl, starts, ?_, ?_⟩
      · rw [List.takeWhile_cons_of_pos (name_start_part c starts),
          List.takeWhile_append_of_pos parts, stops.1, List.append_nil]
      · rw [List.dropWhile_append_of_pos parts, stops.2]

theorem NameText.after (name : NameText word text rest) :
    skipIgnored text = text ∧ afterName? text = some rest ∧ leadingName text = word := by
  obtain ⟨c, tail, rfl, starts, rfl, rfl⟩ := name.parts
  exact ⟨skip_start (name_starts_token starts), by rw [afterName?, if_pos starts], rfl⟩

theorem after_quoted_text {inside : List Char} (content : QuotedText inside) (rest : List Char) :
    StringValue.afterQuoted? false (inside ++ '"' :: rest) = some rest := by
  induction content with
  | none => rfl
  | char quote backslash feed more ih =>
      simpa [StringValue.afterQuoted?, quote, beq_false_of_ne backslash, feed] using ih
  | escape feed more ih => simpa [StringValue.afterQuoted?, feed] using ih

theorem after_block_text (content : BlockText text rest) (escaped : Bool)
    (plain : escaped = true → ¬['"', '"', '"'] <+: text) :
    StringValue.afterBlock? escaped text = some rest := by
  induction content generalizing escaped with
  | close =>
      cases escaped with
      | false => rfl
      | true => exact absurd ⟨_, rfl⟩ (plain rfl)
  | @escape text rest more ih => exact ih false nofun
  | @char c text rest no_end no_escape more ih =>
      have going : StringValue.afterBlock? escaped (c :: text) =
          StringValue.afterBlock? (c == '\\') text := by
        rw [StringValue.afterBlock?]
        rintro tail rfl rfl
        exact no_end ⟨tail, rfl⟩
      rw [going]
      apply ih
      -- A backslash escapes the quotes behind it only if there are three of them.
      intro backslash
      obtain rfl : c = '\\' := by simpa using backslash
      exact fun quotes => no_escape (List.cons_prefix_cons.mpr ⟨rfl, quotes⟩)

theorem StringText.after (string : StringText text rest) :
    ∃ tail, text = '"' :: tail ∧ StringValue.after? tail = some rest := by
  cases string with
  | @quoted inside rest content apart =>
      refine ⟨inside ++ '"' :: rest, rfl, ?_⟩
      rw [StringValue.after?]
      · exact after_quoted_text content rest
      · intro tail starts
        cases content with
        | none => exact apart rfl tail (List.cons.inj starts).2
        | char quote => exact quote (List.cons.inj starts).1
        | escape => cases starts
  | @block text rest content =>
      exact ⟨_, rfl, after_block_text content false fun escaped => absurd escaped Bool.false_ne_true⟩

end Tokens

section Groups
variable {passed text next rest : List Char}

theorem group_gap (gap : Ignored passed) (depth : Nat) :
    afterGroup? depth (passed ++ text) = afterGroup? depth text := by
  rw [← group_skip, skip_gap gap, group_skip]

theorem TokenText.group (token : TokenText text next) (depth : Nat) :
    afterGroup? depth text = afterGroup? depth next := by
  cases token with
  | punct is opening closing => exact group_unmarked (punct_unmarked is opening closing)
  | spread => rw [group_unmarked (by decide), group_unmarked (by decide), group_unmarked (by decide)]
  | name name =>
      cases name with
      | name starts parts ends =>
          rw [group_unmarked (name_part_unmarked (name_start_part _ starts))]
          exact group_all_unmarked fun d member => name_part_unmarked (parts d member)
  | number numeral => exact group_all_unmarked fun d member => numeral_unmarked (numeral d member)
  | string string =>
      obtain ⟨tail, rfl, ended⟩ := string.after
      exact group_string ended

theorem Balanced.keeps_depth (balanced : Balanced text rest) (depth : Nat) :
    afterGroup? (depth + 1) text = afterGroup? (depth + 1) rest := by
  induction balanced generalizing depth with
  | done => rfl
  | ignored gap more ih => rw [group_gap gap, ih]
  | token token more ih => rw [token.group, ih]
  | group inside more ih_inside ih => rw [group_open, ih_inside, group_close, ih]

theorem GroupText.after (group : GroupText text rest) :
    ∃ reached, afterOptionalGroup? (skipIgnored text) = some reached ∧
      skipIgnored reached = skipIgnored rest := by
  cases group with
  | given gap inside =>
      refine ⟨rest, ?_, rfl⟩
      rw [skip_to_start gap (by decide), afterOptionalGroup?, inside.keeps_depth, group_close_last]
  | left_out absent =>
      exact ⟨skipIgnored text, without_group (not_skipped absent), skip_ignored_twice text⟩

theorem DirectivesText.after (directives : DirectivesText text rest) :
    afterDirectives? (skipIgnored text) = some (skipIgnored rest) := by
  induction directives with
  | none absent => exact without_directive (not_skipped absent)
  | @directive passed passed' text called next rest word gap gap' name arguments more ih =>
      obtain ⟨kept, named, _⟩ := name.after
      obtain ⟨reached, grouped, same⟩ := arguments.after
      have called_next : afterName? (skipIgnored (passed' ++ text)) = some called := by
        rw [skip_gap gap', kept, named]
      rw [skip_to_start gap (by decide), past_directive called_next grouped, same, ih]

end Groups

section Steps
variable {text next token : List Char}

theorem Written.stepped {wanted : Step} (written : Written wanted text next) :
    ∃ reached, step text wanted = some reached ∧ skipIgnored reached = skipIgnored next := by
  cases written with
  | name gap name =>
      obtain ⟨kept, named, _⟩ := name.after
      exact ⟨next, by simp only [step_name, skip_gap gap, kept, named], rfl⟩
  | keyword gap name =>
      obtain ⟨kept, named, leads⟩ := name.after
      exact ⟨next, by simp only [step_keyword, skip_gap gap, kept, named, leads, beq_self_eq_true,
        if_true], rfl⟩
  | punct gap starts =>
      exact ⟨next, by simp only [step_punct, skip_to_start gap starts, beq_self_eq_true, if_true], rfl⟩
  | optionalPunct gap starts =>
      exact ⟨next, by simp only [step_optional_punct, skip_to_start gap starts, beq_self_eq_true,
        if_true], rfl⟩
  | noPunct absent =>
      exact ⟨skipIgnored text, without_punct (not_skipped absent), skip_ignored_twice text⟩
  | optionalString gap string =>
      obtain ⟨tail, rfl, ended⟩ := string.after
      have start : StartsToken '"' := by decide
      exact ⟨next, by simp only [step_optional_string, skip_to_start gap start, ended], rfl⟩
  | noString absent =>
      exact ⟨skipIgnored text, without_string (not_skipped absent), skip_ignored_twice text⟩
  | optionalGroup group => exact group.after
  | directives directives =>
      exact ⟨skipIgnored next, directives.after, skip_ignored_twice next⟩

/-- From wherever a layout of some steps begins, the steps lead to the token behind it. -/
theorem layouts_are_passed {wanted : List Step} (layout : Layout wanted text token) :
    steps text wanted = some token := by
  induction layout with
  | token gap starts => rw [steps, skip_to_start gap starts]
  | @step wanted more text next token written later ih =>
      obtain ⟨reached, stepped, same⟩ := written.stepped
      rw [steps, stepped, Option.bind_some, ← Front.steps_skip, same, Front.steps_skip, ih]

/-- A block string with quotes and a parenthesis in it, a comment with both, arguments with a
parenthesis in a string and one in a comment, and a directive without arguments. -/
theorem layout_of_hidden_parentheses :
    let wanted : List Step :=
      [.optionalString, .name, .optionalGroup, .directives, .punct ':', .optionalPunct '|']
    let described := ['"', '"', '"', '(', '\\', '"', '"', '"', ')', '"', '"', '"']
    let comment := ['#', '"', '(', '\n']
    let grouped := ['(', '"', '\\', '"', ')', '#', '"', ' ', '#', ')', '\n', ')']
    let ending := [' ', '@', 'd', ',', ':', ' ', 'T']
    let text := described ++ (comment ++ 'f' :: (grouped ++ ending))
    Layout wanted text ['T'] ∧ steps text wanted = some ['T'] := by
  intro wanted described comment grouped ending text
  have blank : Ignored [' '] := .char rfl .none
  have comma : Ignored [','] := .char rfl .none
  have described_by : BlockText (described.drop 3 ++ (comment ++ 'f' :: (grouped ++ ending)))
      (comment ++ 'f' :: (grouped ++ ending)) :=
    .char (by decide) (by decide) (.escape (.char (by decide) (by decide) .close))
  have commented : Ignored comment :=
    @Ignored.comment ['"', '('] [] '\n' (by simp [isLineEnd]) rfl (.char rfl .none)
  have name : NameText "f" ('f' :: (grouped ++ ending)) (grouped ++ ending) :=
    @NameText.name 'f' [] _ rfl nofun (by rintro _ _ ⟨⟩; rfl)
  have content : QuotedText ['\\', '"', ')', '#'] :=
    .escape (by decide) (.char (by decide) (by decide) (by decide)
      (.char (by decide) (by decide) (by decide) .none))
  have gap : Ignored [' ', '#', ')', '\n'] :=
    .char rfl (@Ignored.comment [')'] [] '\n' (by simp [isLineEnd]) rfl (.char rfl .none))
  have inside : Balanced (grouped.tail ++ ending) (')' :: ending) :=
    .token (.string (.quoted content nofun)) (@Balanced.ignored _ (')' :: ending) _ gap .done)
  have directive : NameText "d" ['d', ',', ':', ' ', 'T'] [',', ':', ' ', 'T'] :=
    @NameText.name 'd' [] _ rfl nofun (by rintro _ _ ⟨⟩; rfl)
  have no_group : ¬Next '(' [',', ':', ' ', 'T'] :=
    other_next comma (by decide) (by decide) (by decide)
  have no_directive : ¬Next '@' [',', ':', ' ', 'T'] :=
    other_next comma (by decide) (by decide) (by decide)
  have no_bar : ¬Next '|' [' ', 'T'] := other_next blank (by decide) (by decide) (by decide)
  have annotated : DirectivesText ending [',', ':', ' ', 'T'] :=
    .directive blank .none directive (.left_out no_group) (.none no_directive)
  have layout : Layout wanted text ['T'] :=
    .step (@Written.optionalString [] _ _ .none (.block described_by)) <|
    .step (.name commented name) <|
    .step (.optionalGroup (@GroupText.given [] _ _ .none inside)) <|
    .step (.directives annotated) <|
    .step (.punct comma (by decide)) <|
    .step (.noPunct no_bar) <|
    .token blank (by decide)
  exact ⟨layout, layouts_are_passed layout⟩

end Steps
end GraphQL.Header
