import GraphQL.Grammar.Parser
import GraphQL.Proofs.HeaderSteps

/-! What runs of parsers do on a text that is in step. A run that succeeds goes from one
front to another; what a parser returns is said together with the tokens that it takes on
the way. -/
namespace GraphQL
open Text Header

variable {text : List Char} {front next : Front text} {α β : Type}

section Rules

/-- Where a run from this front succeeds, it comes to a front, and so it is there with what
the run returns. -/
def Reads (parser : Parser α) (front : Front text) (so : α → Front text → Prop) : Prop :=
  ∀ result lexemes, parser.run front.lexemes = .ok (result, lexemes) →
    ∃ next : Front text, next.lexemes = lexemes ∧ so result next

variable {parser : Parser α} {so so' : α → Front text → Prop}

theorem Reads.pure {result : α} (here : so result front) :
    Reads (Pure.pure result : Parser α) front so := by
  rintro _ _ ⟨⟩
  exact ⟨front, rfl, here⟩

theorem Reads.bind {following : α → Parser β} {after : β → Front text → Prop}
    (first : Reads parser front so)
    (later : ∀ result next, so result next → Reads (following result) next after) :
    Reads (parser >>= following) front after := by
  intro result lexemes ran
  rcases start : parser.run front.lexemes with failure | ⟨middle, left⟩
  · rw [StateT.run_bind, start] at ran
    cases ran
  · rw [StateT.run_bind, start] at ran
    obtain ⟨next, rfl, there⟩ := first middle left start
    exact later middle next there result lexemes ran

theorem Reads.mono (reads : Reads parser front so)
    (weaker : ∀ result next, so result next → so' result next) : Reads parser front so' := by
  intro result lexemes ran
  obtain ⟨next, same, there⟩ := reads result lexemes ran
  exact ⟨next, same, weaker result next there⟩

theorem Reads.map {made : β → Front text → Prop} (f : α → β) (reads : Reads parser front so)
    (makes : ∀ result next, so result next → made (f result) next) :
    Reads (f <$> parser) front made := by
  rw [map_eq_pure_bind]
  exact reads.bind fun result next there => .pure (makes result next there)

/-- Two ways that go on alike. -/
theorem Reads.either {other : Parser α} {following : α → Parser β}
    {after : β → Front text → Prop} (choice : Bool)
    (first : choice = true → Reads parser front so)
    (second : choice = false → Reads other front so)
    (later : ∀ result next, so result next → Reads (following result) next after) :
    Reads (if choice = true then parser >>= following else other >>= following) front after := by
  cases choice with
  | true => exact (first rfl).bind later
  | false => exact (second rfl).bind later

theorem Reads.throw (place : Position) : Reads (throw place : Parser α) front so := by
  intro result lexemes ran
  cases ran

end Rules

section Peeking

namespace Front

/-- The token that stands next, even if it is only the mark at the end. -/
def Sees (front : Front text) (token : Token) : Prop :=
  ∃ place lexemes, front.lexemes = ⟨token, place⟩ :: lexemes

theorem Sees.of_takes {seen taken : Token} (sees : front.Sees seen)
    (takes : front.Takes taken next) : taken = seen := by
  obtain ⟨place, lexemes, first⟩ := sees
  rw [takes.lexemes] at first
  exact congrArg Lexeme.token (List.cons.inj first).1

theorem Sees.takes {token : Token} (sees : front.Sees token) (goes : token ≠ .finish)
    (valid : token ≠ .invalid) : ∃ next, front.Takes token next := by
  obtain ⟨place, lexemes, first⟩ := sees
  rcases front.cases with ⟨_, at_end, ended⟩ | ⟨_, _, at_end, _, _, ended⟩ | ⟨taken, next, takes⟩
  · rw [ended] at first
    cases first
    exact absurd rfl goes
  · rw [ended] at first
    cases first
    exact absurd rfl valid
  · obtain rfl := Sees.of_takes ⟨place, lexemes, first⟩ takes
    exact ⟨next, takes⟩

theorem sees_some (front : Front text) : ∃ lexeme lexemes, front.lexemes = lexeme :: lexemes :=
  List.exists_cons_of_ne_nil (lexemes_ne_nil front.place front.rest)

end Front

namespace Parser

theorem peek_reads : Reads peek front fun token next => front = next ∧ front.Sees token := by
  obtain ⟨⟨token, place⟩, lexemes, first⟩ := front.sees_some
  rintro seen left ran
  rw [first] at ran
  cases ran
  exact ⟨front, first, rfl, place, lexemes, first⟩

theorem place_reads : Reads place front fun place next =>
    front = next ∧ (front.Continues → place = front.here) := by
  obtain ⟨⟨token, place⟩, lexemes, first⟩ := front.sees_some
  rintro asked left ran
  rw [first] at ran
  cases ran
  refine ⟨front, first, rfl, ?_⟩
  rintro ⟨_, _, takes⟩
  have same := takes.lexemes
  rw [first] at same
  exact congrArg Lexeme.place (List.cons.inj same).1

theorem fail_reads {so : α → Front text → Prop} : Reads (fail : Parser α) front so :=
  place_reads.bind fun place _ _ => .throw place

theorem skip_reads {token : Token} (takes : front.Takes token next) :
    Reads skip front fun _ last => last = next := by
  rintro _ left ran
  rw [takes.lexemes] at ran
  cases ran
  exact ⟨next, rfl, rfl⟩

/-- A token that was seen is taken by skipping it. -/
theorem skip_seen {token : Token} {following : Unit → Parser β} {after : β → Front text → Prop}
    (sees : front.Sees token) (goes : token ≠ .finish) (valid : token ≠ .invalid)
    (later : ∀ next, front.Takes token next → Reads (following ()) next after) :
    Reads (skip >>= following) front after := by
  obtain ⟨next, takes⟩ := sees.takes goes valid
  apply (skip_reads takes).bind
  rintro _ _ rfl
  exact later _ takes

theorem get_reads : Reads (get : Parser (List Lexeme)) front fun lexemes next =>
    front = next ∧ lexemes = front.lexemes := by
  rintro _ left ⟨⟩
  exact ⟨front, rfl, rfl, rfl⟩

end Parser
end Peeking

section Tokens
namespace Parser
variable {c : Char} {word : String}

theorem at_punct_reads : Reads (atPunct c) front fun yes next =>
    front = next ∧ (yes = true ↔ ∃ taken, front.Takes (.punct c) taken) := by
  apply peek_reads.bind
  rintro token _ ⟨rfl, sees⟩
  split
  · next d =>
    apply Reads.pure
    refine ⟨rfl, ?_⟩
    rw [beq_iff_eq]
    constructor
    · rintro rfl
      exact sees.takes nofun nofun
    · rintro ⟨taken, takes⟩
      exact Token.punct.inj (sees.of_takes takes)
  · next other =>
    apply Reads.pure
    refine ⟨rfl, nofun, ?_⟩
    rintro ⟨taken, takes⟩
    exact absurd (sees.of_takes takes).symm (other c)

theorem accept_reads : Reads (accept c) front fun yes next =>
    (yes = true ∧ front.Takes (.punct c) next) ∨
      (yes = false ∧ front = next ∧ ∀ taken, ¬front.Takes (.punct c) taken) := by
  apply at_punct_reads.bind
  rintro yes _ ⟨rfl, there⟩
  cases yes with
  | true =>
      obtain ⟨next, takes⟩ := there.mp rfl
      apply (skip_reads takes).bind
      rintro _ _ rfl
      exact .pure (.inl ⟨rfl, takes⟩)
  | false =>
      apply Reads.pure
      refine .inr ⟨rfl, rfl, fun taken takes => ?_⟩
      cases there.mpr ⟨taken, takes⟩

theorem punct_reads : Reads (punct c) front fun _ next => front.Takes (.punct c) next := by
  apply accept_reads.bind
  rintro yes next (⟨rfl, takes⟩ | ⟨rfl, _⟩)
  · exact .pure takes
  · exact fail_reads

theorem at_word_reads : Reads (atWord word) front fun yes next =>
    front = next ∧ (yes = true → ∃ taken, front.Takes (.name word) taken) := by
  apply peek_reads.bind
  rintro token _ ⟨rfl, sees⟩
  split
  · apply Reads.pure
    refine ⟨rfl, fun same => ?_⟩
    obtain rfl := beq_iff_eq.mp same
    exact sees.takes nofun nofun
  · exact .pure ⟨rfl, nofun⟩

theorem accept_word_reads : Reads (acceptWord word) front fun yes next =>
    (yes = true ∧ front.Takes (.name word) next) ∨ (yes = false ∧ front = next) := by
  apply at_word_reads.bind
  rintro yes _ ⟨rfl, there⟩
  cases yes with
  | true =>
      obtain ⟨next, takes⟩ := there rfl
      apply (skip_reads takes).bind
      rintro _ _ rfl
      exact .pure (.inl ⟨rfl, takes⟩)
  | false => exact .pure (.inr ⟨rfl, rfl⟩)

theorem keyword_reads : Reads (keyword word) front fun _ next =>
    front.Takes (.name word) next := by
  apply accept_word_reads.bind
  rintro yes next (⟨rfl, takes⟩ | ⟨rfl, _⟩)
  · exact .pure takes
  · exact fail_reads

theorem name_reads : Reads name front fun word next => front.Takes (.name word) next := by
  apply peek_reads.bind
  rintro token _ ⟨rfl, sees⟩
  split
  · apply skip_seen sees nofun nofun
    intro next takes
    exact .pure takes
  · exact fail_reads

theorem optional_name_reads : Reads name? front fun word? next =>
    (∃ word, word? = some word ∧ front.Takes (.name word) next) ∨
      (word? = none ∧ front = next) := by
  apply peek_reads.bind
  rintro token _ ⟨rfl, sees⟩
  split
  · apply skip_seen sees nofun nofun
    intro next takes
    exact .pure (.inl ⟨_, rfl, takes⟩)
  · exact .pure (.inr ⟨rfl, rfl⟩)

/-- A text that goes on does not go on with a string that has no end, so if no string is
taken there is no quote. -/
theorem optional_string_reads : Reads string? front fun _ next =>
    front.Passes next ∧
      (next.Continues → front.Continues ∧ front.Leads .optionalString next) := by
  apply peek_reads.bind
  rintro token _ ⟨rfl, sees⟩
  split
  · apply skip_seen sees nofun nofun
    intro next takes
    exact .pure ⟨takes.passes nofun nofun, fun _ => ⟨takes.continues, takes.leads_string⟩⟩
  · next other =>
    apply Reads.pure
    refine ⟨.refl _, ?_⟩
    rintro ⟨taken, last, takes⟩
    refine ⟨takes.continues, ?_⟩
    apply Front.leads_without_string
    intro tail skipped
    obtain ⟨c, _, same, shape⟩ := takes.shape
    rw [skipped] at same
    cases same
    obtain ⟨value, rfl⟩ := shape.of_quote
    exact other value (sees.of_takes takes).symm

end Parser
end Tokens

section Repetition

/-- What goes along with each of several tokens goes along with all of them. -/
structure Composes (Goes : Front text → Front text → Prop) : Prop where
  refl : ∀ front, Goes front front
  trans : ∀ {first second third}, Goes first second → Goes second third → Goes first third

theorem passes_composes : Composes (@Front.Passes text) :=
  ⟨Front.Passes.refl, Front.Passes.trans⟩

/-- Nothing is asked of the way. -/
def Anyhow (_ _ : Front text) : Prop := True

theorem anyhow_composes : Composes (@Anyhow text) := ⟨fun _ => trivial, fun _ _ => trivial⟩

namespace Parser
variable {c close : Char} {item : Parser α} {Good : α → Prop}
  {Goes : Front text → Front text → Prop}

theorem repeat_until_reads (composes : Composes Goes)
    (each : ∀ front, Reads item front fun result next => Good result ∧ Goes front next)
    (room : Nat) (front : Front text) :
    Reads (repeatUntil close item room) front fun results next =>
      (∀ result ∈ results, Good result) ∧ ∃ last, Goes front last ∧ last.Takes (.punct close) next := by
  induction room generalizing front with
  | zero => exact fail_reads
  | succ room ih =>
      apply accept_reads.bind
      rintro closed next (⟨rfl, takes⟩ | ⟨rfl, rfl, _⟩)
      · exact .pure ⟨nofun, front, composes.refl front, takes⟩
      · apply (each front).bind
        rintro first second ⟨good, goes⟩
        apply (ih second).bind
        rintro rest third ⟨all, last, later, closes⟩
        exact .pure ⟨List.forall_mem_cons.mpr ⟨good, all⟩, last, composes.trans goes later, closes⟩

theorem items_until_reads (composes : Composes Goes)
    (each : ∀ front, Reads item front fun result next => Good result ∧ Goes front next)
    (front : Front text) :
    Reads (itemsUntil close item) front fun results next =>
      (∀ result ∈ results, Good result) ∧ ∃ last, Goes front last ∧ last.Takes (.punct close) next := by
  apply get_reads.bind
  rintro lexemes _ ⟨rfl, rfl⟩
  exact repeat_until_reads composes each _ _

theorem some_until_reads (composes : Composes Goes)
    (each : ∀ front, Reads item front fun result next => Good result ∧ Goes front next)
    (front : Front text) :
    Reads (someUntil close item) front fun results next =>
      (∀ result ∈ results, Good result) ∧ ∃ last, Goes front last ∧ last.Takes (.punct close) next := by
  apply (each front).bind
  rintro first second ⟨good, goes⟩
  apply (items_until_reads composes each second).bind
  rintro rest third ⟨all, last, later, closes⟩
  exact .pure ⟨List.forall_mem_cons.mpr ⟨good, all⟩, last, composes.trans goes later, closes⟩

/-- There is room for all items that follow, because each of them takes a token. -/
theorem repeat_while_reads (composes : Composes Goes)
    (each : ∀ front, Reads item front fun result next =>
      Good result ∧ Goes front next ∧ next.lexemes.length < front.lexemes.length)
    (room : Nat) (front : Front text) (enough : front.lexemes.length ≤ room) :
    Reads (repeatWhile c item room) front fun results next =>
      (∀ result ∈ results, Good result) ∧ Goes front next ∧
        ∀ taken, ¬next.Takes (.punct c) taken := by
  induction room generalizing front with
  | zero =>
      -- There is always one token more, the mark at the end, so that room cannot run out.
      obtain ⟨lexeme, lexemes, first⟩ := front.sees_some
      rw [first] at enough
      exact absurd enough (Nat.not_succ_le_zero _)
  | succ room ih =>
      apply at_punct_reads.bind
      rintro starts _ ⟨rfl, there⟩
      cases starts with
      | true =>
          apply (each _).bind
          rintro first second ⟨good, goes, shorter⟩
          apply (ih second (Nat.le_of_lt_succ (Nat.lt_of_lt_of_le shorter enough))).bind
          rintro rest third ⟨all, later, stops⟩
          exact .pure ⟨List.forall_mem_cons.mpr ⟨good, all⟩, composes.trans goes later, stops⟩
      | false =>
          apply Reads.pure
          refine ⟨nofun, composes.refl _, fun taken takes => ?_⟩
          cases there.mpr ⟨taken, takes⟩

theorem items_while_reads (composes : Composes Goes)
    (each : ∀ front, Reads item front fun result next =>
      Good result ∧ Goes front next ∧ next.lexemes.length < front.lexemes.length)
    (front : Front text) :
    Reads (itemsWhile c item) front fun results next =>
      (∀ result ∈ results, Good result) ∧ Goes front next ∧
        ∀ taken, ¬next.Takes (.punct c) taken := by
  apply get_reads.bind
  rintro lexemes _ ⟨rfl, rfl⟩
  exact repeat_while_reads composes each _ _ (Nat.le_refl _)

theorem repeat_to_end_reads (each : ∀ front : Front text, Reads item front fun result _ => Good result)
    (room : Nat) (front : Front text) :
    Reads (repeatToEnd item room) front fun results _ => ∀ result ∈ results, Good result := by
  induction room generalizing front with
  | zero => exact fail_reads
  | succ room ih =>
      apply peek_reads.bind
      rintro token _ ⟨rfl, sees⟩
      split
      · exact .pure nofun
      · apply (each _).bind
        intro first second good
        apply (ih second).bind
        intro rest third all
        exact .pure (List.forall_mem_cons.mpr ⟨good, all⟩)

theorem some_to_end_reads (each : ∀ front : Front text, Reads item front fun result _ => Good result)
    (front : Front text) :
    Reads (someToEnd item) front fun results _ => ∀ result ∈ results, Good result := by
  apply (each front).bind
  intro first second good
  apply get_reads.bind
  rintro lexemes _ ⟨rfl, rfl⟩
  apply (repeat_to_end_reads each _ _).bind
  intro rest third all
  exact .pure (List.forall_mem_cons.mpr ⟨good, all⟩)

/-- There is no group, or it is what stands between two brackets. -/
theorem optional_group_reads {items : Nat → Parser α} (composes : Composes Goes)
    (each : ∀ room front, Reads (items room) front fun result next => Good result ∧ Goes front next)
    (room : Nat) (front : Front text) :
    Reads (optionalGroup c close items room) front fun results next =>
      (∀ result ∈ results, Good result) ∧
        ((front = next ∧ ∀ taken, ¬front.Takes (.punct c) taken) ∨
          ∃ inside last, front.Takes (.punct c) inside ∧ Goes inside last ∧
            last.Takes (.punct close) next) := by
  apply at_punct_reads.bind
  rintro opens _ ⟨rfl, there⟩
  cases opens with
  | true =>
      cases room with
      | zero => exact fail_reads
      | succ room =>
          apply punct_reads.bind
          intro _ inside takes
          apply (some_until_reads composes (each room) inside).mono
          rintro results next ⟨all, last, goes, closes⟩
          exact ⟨all, .inr ⟨inside, last, takes, goes, closes⟩⟩
  | false =>
      apply Reads.pure
      refine ⟨nofun, .inl ⟨rfl, fun taken takes => ?_⟩⟩
      cases there.mpr ⟨taken, takes⟩

end Parser
end Repetition
end GraphQL
