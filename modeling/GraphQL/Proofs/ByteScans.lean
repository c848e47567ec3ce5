import GraphQL.Proofs.ByteOffsets
import GraphQL.Proofs.HeaderSteps
import Mathlib

/-! Scans of a text by byte offsets. The steps over a header read on from points of a text; here
the same steps are taken by someone who holds the offset of a point, and who looks at the text by
cutting slices out of it. A loop is given by one turn of it. There is no result where a loop does
not come to an end, and none where the text is cut at an offset that is behind its end or inside
of a character. From the offset of a point every scan has a result, and it is the offset of the
point that the step leads to. -/
namespace GraphQL.Scan
open Text
open StringValue (bytes)

section Loops
variable {State Result : Type}

/-- Takes turns until one of them ends with a result. -/
def loop (turn : State → Part (Result ⊕ State)) : State → Part Result := PFun.fix turn

/-- A loop is one turn of it, and the loop again where that turn does not end it. -/
theorem loop_turn (turn : State → Part (Result ⊕ State)) (state : State) :
    loop turn state = (turn state).bind (Sum.elim Part.some (loop turn)) := by
  refine Part.ext fun result => ?_
  rw [Part.mem_bind_iff, Sum.exists]
  simp only [Sum.elim_inl, Sum.elim_inr, Part.mem_some_iff]
  exact PFun.mem_fix_iff.trans (by simp [loop])

end Loops

section Turns
variable (text : List Char)

/-- What is left of the text, if it can be cut at the offset. -/
def cut (offset : Nat) : Part (List Char) := restFrom? text offset

def slice (first last : Nat) : Part (List Char) := between? text first last

def peek (offset : Nat) : Part (Option Char) := do
  return (← cut text offset).head?

/-- A comment ends in front of the next line end, or where the text ends. -/
def commentEnd (offset : Nat) : Part Nat := do
  let rest ← cut text offset
  if rest.any isLineEnd then return offset + bytes (rest.takeWhile fun c => !isLineEnd c)
  else return bytes text

def ignoredTurn (offset : Nat) : Part (Nat ⊕ Nat) := do
  match ← peek text offset with
  | none => return .inl offset
  | some c =>
      if isIgnored c then return .inr (offset + c.utf8Size)
      else if c == '#' then return .inr (← commentEnd text offset)
      else return .inl offset

def skipIgnored (offset : Nat) : Part Nat := loop (ignoredTurn text) offset

def nameEnd (offset : Nat) : Part (Option Nat) := do
  let rest ← cut text offset
  match rest with
  | [] => return none
  | c :: _ =>
      if isNameStart c then return some (offset + bytes (rest.takeWhile isNamePart))
      else return none

/-- How many bytes stand in front of the first three quotes in a row. -/
def bytesToQuotes? : List Char → Option Nat
  | '"' :: '"' :: '"' :: _ => some 0
  | c :: rest => (bytesToQuotes? rest).map (c.utf8Size + ·)
  | [] => none

def blockTurn (start offset : Nat) : Part (Option Nat ⊕ Nat) := do
  match bytesToQuotes? (← cut text offset) with
  | none => return .inl none
  | some ahead =>
      let passed ← slice text start (offset + ahead)
      if passed.getLast? == some '\\' then return .inr (offset + ahead + 3)
      else return .inl (some (offset + ahead + 3))

/-- Searches a block string that starts at one offset for its end, from another offset on. -/
def blockEnd (start offset : Nat) : Part (Option Nat) := loop (blockTurn text start) offset

def quotedTurn : Bool × Nat → Part (Option Nat ⊕ Bool × Nat)
  | (escaped, offset) => do
      match ← peek text offset with
      | none => return .inl none
      | some c =>
          if c == '"' && !escaped then return .inl (some (offset + c.utf8Size))
          else if c == '\n' then return .inl none
          else return .inr (!escaped && c == '\\', offset + c.utf8Size)

def quotedEnd (escaped : Bool) (offset : Nat) : Part (Option Nat) :=
  loop (quotedTurn text) (escaped, offset)

def stringEnd (offset : Nat) : Part (Option Nat) := do
  match ← cut text offset with
  | '"' :: '"' :: '"' :: _ => blockEnd text (offset + 3) (offset + 3)
  | c :: _ => quotedEnd text false (offset + c.utf8Size)
  | [] => return none

def groupTurn (opening closing : Char) : Nat × Nat → Part (Option Nat ⊕ Nat × Nat)
  | (depth, offset) => do
      match ← peek text offset with
      | none => return .inl none
      | some c =>
          if c == '"' then
            match ← stringEnd text offset with
            | none => return .inl none
            | some next => return .inr (depth, next)
          else if c == '#' then return .inr (depth, ← commentEnd text offset)
          else if c == opening then return .inr (depth + 1, offset + c.utf8Size)
          else if c == closing then
            match depth with
            | 0 => return .inl none
            | 1 => return .inl (some (offset + c.utf8Size))
            | inner + 2 => return .inr (inner + 1, offset + c.utf8Size)
          else return .inr (depth, offset + c.utf8Size)

def groupEnd (opening closing : Char) (depth offset : Nat) : Part (Option Nat) :=
  loop (groupTurn text opening closing) (depth, offset)

def optionalGroup (opening closing : Char) (offset : Nat) : Part (Option Nat) := do
  if (← peek text offset) == some opening then groupEnd text opening closing 0 offset
  else return some offset

def directiveTurn (offset : Nat) : Part (Option Nat ⊕ Nat) := do
  if (← peek text offset) == some '@' then
    match ← nameEnd text (← skipIgnored text (offset + 1)) with
    | none => return .inl none
    | some called =>
        match ← optionalGroup text '(' ')' (← skipIgnored text called) with
        | none => return .inl none
        | some next => return .inr (← skipIgnored text next)
  else return .inl (some offset)

def directivesEnd (offset : Nat) : Part (Option Nat) := loop (directiveTurn text) offset

def step (offset : Nat) (wanted : Header.Step) : Part (Option Nat) := do
  let offset ← skipIgnored text offset
  match wanted with
  | .directives => directivesEnd text offset
  | .keyword word =>
      match ← nameEnd text offset with
      | none => return none
      | some next =>
          if (← slice text offset next) = word.toList then return some next else return none
  | .name => nameEnd text offset
  | .optionalGroup => optionalGroup text '(' ')' offset
  | .optionalPunct c =>
      if (← peek text offset) == some c then return some (offset + c.utf8Size)
      else return some offset
  | .optionalString =>
      if (← peek text offset) == some '"' then stringEnd text offset else return some offset
  | .punct c =>
      if (← peek text offset) == some c then return some (offset + c.utf8Size) else return none

/-- A step over a header, or over an optional group between any two characters. -/
inductive Wanted where
  | header (wanted : Header.Step)
  | group (opening closing : Char)

def stepOver (offset : Nat) : Wanted → Part (Option Nat)
  | .header wanted => step text offset wanted
  | .group opening closing => do optionalGroup text opening closing (← skipIgnored text offset)

def steps (offset : Nat) : List Wanted → Part (Option Nat)
  | [] => do return some (← skipIgnored text offset)
  | wanted :: rest => do
      match ← stepOver text offset wanted with
      | none => return none
      | some next => steps next rest

/-- The offset of a place, if the ruler finds it. -/
def offsetAt? (place : Position) : Option Nat := (Ruler.restAt text place).map (offsetOf text)

def seek (place : Position) (wanted : List Wanted) : Part (Option Nat) :=
  match offsetAt? text place with
  | none => return none
  | some offset => steps text offset wanted

def separatedNames (separator : Char) : Nat → Option Nat → Part (List (Option Nat))
  | 0, _ => return []
  | count + 1, none => do return none :: (← separatedNames separator count none)
  | count + 1, some offset => do
      let next ← steps text offset [.header .name, .header (.punct separator)]
      return some offset :: (← separatedNames separator count next)

/-- One turn of the loop over root types adds an entry to the ones found, if there is one more. -/
def rootTurn : List (String × Nat) × Nat →
    Part (List (String × Nat) ⊕ List (String × Nat) × Nat)
  | (found, offset) => do
      match ← step text offset .name with
      | none => return .inl found
      | some called =>
          match ← step text called (.punct ':') with
          | none => return .inl found
          | some behind =>
              let type ← skipIgnored text behind
              let word ← slice text offset called
              match ← step text type .name with
              | none => return .inl found
              | some next =>
                  return .inr (found ++ [(String.ofList word, type)], ← skipIgnored text next)

def rootEntries (found : List (String × Nat)) (offset : Nat) : Part (List (String × Nat)) :=
  loop (rootTurn text) (found, offset)

def rootTypes (place : Position) : Part (List (String × Nat)) := do
  let opened := [.keyword "schema", .directives, .punct '{']
  match ← seek text place (opened.map .header) with
  | none => return []
  | some inside => rootEntries text [] inside

end Turns

section Tokens
variable {text point rest : List Char} {c : Char}

theorem cut_point (within : point <:+ text) :
    cut text (offsetOf text point) = Part.some point := by
  rw [cut, rest_from_point within, Part.coe_some]

theorem slice_points {passed : List Char} (within : passed ++ rest <:+ text) :
    slice text (offsetOf text (passed ++ rest)) (offsetOf text rest) = Part.some passed := by
  rw [slice, between_points within, Part.coe_some]

theorem peek_point (within : point <:+ text) :
    peek text (offsetOf text point) = Part.some point.head? := by
  rw [peek, cut_point within, Part.bind_eq_bind, Part.bind_some, Part.pure_eq_some]

theorem starts_with_iff : (point.head? == some c) = true ↔ ∃ rest, point = c :: rest := by
  rw [beq_iff_eq, List.head?_eq_some_iff]

theorem comment_end (within : '#' :: rest <:+ text) :
    commentEnd text (offsetOf text ('#' :: rest)) =
      Part.some (offsetOf text (Header.afterComment rest)) := by
  have split : '#' :: rest =
      ('#' :: rest.takeWhile fun c => !isLineEnd c) ++ Header.afterComment rest := by
    rw [Header.afterComment, List.cons_append, List.takeWhile_append_dropWhile]
  have passed : (('#' :: rest).takeWhile fun c => !isLineEnd c) =
      '#' :: rest.takeWhile fun c => !isLineEnd c :=
    List.takeWhile_cons_of_pos (by decide)
  have behind := offset_passed _ (split ▸ within)
  rw [← split, ← passed] at behind
  rw [commentEnd, cut_point within, Part.bind_eq_bind, Part.bind_some, behind]
  split
  · rfl
  · next unended =>
    -- Where no line end follows, the comment goes on to the end of the text.
    have none_left : Header.afterComment rest = [] := by
      rw [Header.afterComment, List.dropWhile_eq_nil_iff]
      simpa [isLineEnd] using unended
    rw [none_left]
    rfl

theorem skip_ignored (within : point <:+ text) :
    skipIgnored text (offsetOf text point) =
      Part.some (offsetOf text (Header.skipIgnored point)) := by
  rw [skipIgnored]
  fun_induction Header.skipIgnored point with
  | case1 =>
      rw [loop_turn, ignoredTurn, peek_point within]
      simp
  | case2 c rest ignored ih =>
      rw [loop_turn, ignoredTurn, peek_point within]
      simp only [Part.bind_eq_bind, Part.bind_some, List.head?_cons, ignored, if_true,
        Part.pure_eq_some, Sum.elim_inr, offset_cons within]
      exact ih (suffix_of_cons within)
  | case3 c rest kept comment ih =>
      obtain rfl : c = '#' := by simpa using comment
      have behind : Header.afterComment rest <:+ text :=
        (List.dropWhile_suffix _).trans (suffix_of_cons within)
      rw [loop_turn, ignoredTurn, peek_point within]
      simp only [Part.bind_eq_bind, Part.bind_some, List.head?_cons, kept, comment, if_true,
        Bool.false_eq_true, if_false, comment_end within, Part.pure_eq_some, Sum.elim_inr]
      exact ih behind
  | case4 c rest kept other =>
      rw [loop_turn, ignoredTurn, peek_point within]
      simp only [Part.bind_eq_bind, Part.bind_some, List.head?_cons, kept, other,
        Bool.false_eq_true, if_false, Part.pure_eq_some, Sum.elim_inl]

theorem name_end (within : point <:+ text) :
    nameEnd text (offsetOf text point) =
      Part.some ((Header.afterName? point).map (offsetOf text)) := by
  rw [nameEnd, cut_point within, Part.bind_eq_bind, Part.bind_some]
  cases point with
  | nil => rfl
  | cons c rest =>
      by_cases starts : isNameStart c = true
      · have split : c :: rest = (c :: rest.takeWhile isNamePart) ++ rest.dropWhile isNamePart := by
          rw [List.cons_append, List.takeWhile_append_dropWhile]
        have behind := offset_passed _ (split ▸ within)
        rw [← split] at behind
        simp only [starts, if_true, Header.afterName?, Option.map_some,
          List.takeWhile_cons_of_pos (name_start_part c starts), behind]
        rfl
      · simp only [starts, Bool.false_eq_true, if_false, Header.afterName?, Option.map_none]
        rfl

theorem slice_of_name {next : List Char} (within : point <:+ text)
    (named : Header.afterName? point = some next) :
    slice text (offsetOf text point) (offsetOf text next) =
      Part.some (point.takeWhile isNamePart) := by
  cases point with
  | nil => cases named
  | cons c rest =>
      rw [Header.afterName?] at named
      split at named
      · next starts =>
        cases named
        have split : c :: rest = (c :: rest).takeWhile isNamePart ++ rest.dropWhile isNamePart := by
          rw [List.takeWhile_cons_of_pos (name_start_part c starts), List.cons_append,
            List.takeWhile_append_dropWhile]
        have word := slice_points (split ▸ within)
        rwa [← split] at word
      · cases named

end Tokens

section Strings
variable {text point rest : List Char} {c : Char}

theorem quoted_end (escaped : Bool) (within : point <:+ text) :
    quotedEnd text escaped (offsetOf text point) =
      Part.some ((StringValue.afterQuoted? escaped point).map (offsetOf text)) := by
  rw [quotedEnd]
  fun_induction StringValue.afterQuoted? escaped point with
  | case1 =>
      rw [loop_turn, quotedTurn, peek_point within]
      simp
  | case2 escaped c rest closes =>
      rw [loop_turn, quotedTurn, peek_point within]
      simp only [Part.bind_eq_bind, Part.bind_some, List.head?_cons, closes, if_true,
        Part.pure_eq_some, Sum.elim_inl, offset_cons within, Option.map_some]
  | case3 escaped c rest inside feed =>
      rw [loop_turn, quotedTurn, peek_point within]
      simp only [Part.bind_eq_bind, Part.bind_some, List.head?_cons, inside, feed, if_true,
        Bool.false_eq_true, if_false, Part.pure_eq_some, Sum.elim_inl, Option.map_none]
  | case4 escaped c rest inside line ih =>
      rw [loop_turn, quotedTurn, peek_point within]
      simp only [Part.bind_eq_bind, Part.bind_some, List.head?_cons, inside, line,
        Bool.false_eq_true, if_false, Part.pure_eq_some, Sum.elim_inr, offset_cons within]
      exact ih (suffix_of_cons within)

/-- Where the first three quotes in a row are. Behind them the string goes on only if a backslash
stands in front of them. -/
theorem to_quotes {ahead : Nat} (found : bytesToQuotes? point = some ahead) :
    ∃ front rest, point = front ++ '"' :: '"' :: '"' :: rest ∧ ahead = bytes front ∧
      ∀ escaped, StringValue.afterBlock? escaped point =
        if (front.getLast?.map (· == '\\')).getD escaped then StringValue.afterBlock? false rest
        else some rest := by
  -- Only the last character in front of the quotes decides, so the flag matters if there is none.
  induction point using bytesToQuotes?.induct generalizing ahead with
  | case1 rest =>
      cases found
      exact ⟨[], rest, rfl, rfl, fun escaped => by cases escaped <;> rfl⟩
  | case2 c rest other ih =>
      rw [bytesToQuotes?, Option.map_eq_some_iff] at found
      · obtain ⟨further, found, rfl⟩ := found
        obtain ⟨front, behind, rfl, rfl, ends⟩ := ih found
        refine ⟨c :: front, behind, rfl, rfl, fun escaped => ?_⟩
        rw [StringValue.afterBlock?, ends]
        · cases front with
          | nil => rfl
          | cons d front =>
              have ends := List.getLast?_eq_some_getLast (List.cons_ne_nil d front)
              rw [List.getLast?_cons_cons, ends]
              rfl
        · exact other
      · exact other
  | case3 => cases found

theorem without_quotes (none_left : bytesToQuotes? point = none) (escaped : Bool) :
    StringValue.afterBlock? escaped point = none := by
  induction point using bytesToQuotes?.induct generalizing escaped with
  | case1 => cases none_left
  | case2 c rest other ih =>
      rw [bytesToQuotes?, Option.map_eq_none_iff] at none_left
      · rw [StringValue.afterBlock?]
        · exact ih none_left _
        · exact other
      · exact other
  | case3 => rfl

/-- A backslash in front of quotes may have been passed before the search for them. -/
theorem ends_in_backslash (passed front : List Char) :
    ((passed ++ front).getLast? == some '\\') =
      (front.getLast?.map (· == '\\')).getD (passed.getLast? == some '\\') := by
  rw [List.getLast?_append]
  cases front.getLast? <;> rfl

theorem block_end (passed : List Char) {point : List Char} (within : passed ++ point <:+ text) :
    blockEnd text (offsetOf text (passed ++ point)) (offsetOf text point) =
      Part.some
        ((StringValue.afterBlock? (passed.getLast? == some '\\') point).map (offsetOf text)) := by
  rw [blockEnd, loop_turn, blockTurn, cut_point (suffix_of_append passed within),
    Part.bind_eq_bind, Part.bind_some]
  cases found : bytesToQuotes? point with
  | none =>
      rw [without_quotes found, Part.pure_eq_some, Part.bind_some, Sum.elim_inl, Option.map_none]
  | some ahead =>
      obtain ⟨front, rest, split_at, rfl, ends⟩ := to_quotes found
      have shorter : rest.length < point.length := by
        rw [split_at]
        simp only [List.length_append, List.length_cons]
        omega
      rw [split_at] at within
      have before_quotes : (passed ++ front) ++ '"' :: '"' :: '"' :: rest <:+ text := by
        rwa [List.append_assoc]
      have behind_quotes : (passed ++ front ++ ['"', '"', '"']) ++ rest <:+ text := by
        rwa [List.append_assoc]
      have front_passed := offset_passed front (suffix_of_append passed within)
      have quotes_passed : offsetOf text ('"' :: '"' :: '"' :: rest) + 3 = offsetOf text rest :=
        offset_passed ['"', '"', '"'] (suffix_of_append _ before_quotes)
      have cut_out := slice_points before_quotes
      rw [List.append_assoc] at cut_out
      rw [ends, split_at]
      simp only [front_passed, cut_out, Part.bind_eq_bind, Part.bind_some, quotes_passed,
        ends_in_backslash]
      split
      · -- The slice is taken from the start of the string, so these quotes are in it from now on.
        have further := block_end (passed ++ front ++ ['"', '"', '"']) behind_quotes
        rw [List.getLast?_append, blockEnd] at further
        simpa using further
      · rw [Part.pure_eq_some, Part.bind_some, Sum.elim_inl, Option.map_some]
termination_by point.length
decreasing_by exact shorter

theorem string_end (within : '"' :: rest <:+ text) :
    stringEnd text (offsetOf text ('"' :: rest)) =
      Part.some ((StringValue.after? rest).map (offsetOf text)) := by
  rw [stringEnd, cut_point within, Part.bind_eq_bind, Part.bind_some]
  split
  · next tail quotes =>
    obtain rfl : rest = '"' :: '"' :: tail := (List.cons.inj quotes).2
    have opened : offsetOf text ('"' :: '"' :: '"' :: tail) + 3 = offsetOf text tail :=
      offset_passed ['"', '"', '"'] within
    rw [opened]
    exact block_end [] (suffix_of_append ['"', '"', '"'] within)
  · next c tail other same =>
    obtain ⟨rfl, rfl⟩ := List.cons.inj same
    rw [offset_cons within, quoted_end false (suffix_of_cons within), StringValue.after?]
    intro further quotes
    exact other further rfl quotes
  · next empty => cases empty

end Strings
section Groups
variable {text : List Char}

theorem group_unended {rest : List Char} {depth : Nat} (unended : StringValue.after? rest = none) :
    Header.afterGroup? depth ('"' :: rest) = none := by
  rw [Header.after_group_cons, unended]
  rfl

theorem group_close_none {rest : List Char} : Header.afterGroup? 0 (')' :: rest) = none := by
  rw [Header.after_group_cons]
  rfl

/-- A scan for the end of a group that starts at a point comes to an end, and what it finds is the
offset of a point further on. The end of parentheses is where the header step finds it. -/
def EndsGroup (text : List Char) (opening closing : Char) (depth : Nat) (point : List Char)
    (scan : Part (Option Nat)) : Prop :=
  ∃ read : Option (List Char), scan = Part.some (read.map (offsetOf text)) ∧
    (∀ next ∈ read, next <:+ point) ∧
    (opening = '(' → closing = ')' → read = Header.afterGroup? depth point)

/-- A scan that goes on from a point further on ends where that one does. -/
theorem EndsGroup.of_further {opening closing : Char} {depth inner : Nat} {point next : List Char}
    {scan : Part (Option Nat)} (ended : EndsGroup text opening closing inner next scan)
    (further : next <:+ point) (parentheses : opening = '(' → closing = ')' →
      Header.afterGroup? depth point = Header.afterGroup? inner next) :
    EndsGroup text opening closing depth point scan := by
  obtain ⟨read, ends, onward, same⟩ := ended
  refine ⟨read, ends, fun last member => (onward last member).trans further, ?_⟩
  intro opens closes
  rw [parentheses opens closes, same opens closes]

/-- One turn of the loop over a group, where a character is left. -/
theorem group_turn {opening closing c : Char} {depth : Nat} {rest : List Char}
    (within : c :: rest <:+ text)
    (ends_from : ∀ {inner next}, next <:+ rest → EndsGroup text opening closing inner next
      (groupEnd text opening closing inner (offsetOf text next))) :
    EndsGroup text opening closing depth (c :: rest)
      (groupEnd text opening closing depth (offsetOf text (c :: rest))) := by
  have behind : rest <:+ c :: rest := List.suffix_cons c rest
  have goes_on {inner : Nat} : EndsGroup text opening closing inner rest
      (groupEnd text opening closing inner (offsetOf text rest)) :=
    ends_from (List.suffix_refl rest)
  rw [groupEnd, loop_turn, groupTurn, peek_point within, Part.bind_eq_bind, Part.bind_some,
    List.head?_cons]
  dsimp only
  by_cases quote : c = '"'
  · subst quote
    rw [if_pos (beq_self_eq_true _), string_end within]
    cases ended : StringValue.after? rest with
    | none => exact ⟨none, by simp, by simp, fun _ _ => (group_unended ended).symm⟩
    | some next =>
        have later : next <:+ rest := StringValue.after_suffix ended
        simpa [groupEnd] using
          (ends_from later).of_further (later.trans behind) fun _ _ => group_string ended
  rw [if_neg (by simpa using quote)]
  by_cases comment : c = '#'
  · subst comment
    have later : Header.afterComment rest <:+ rest := List.dropWhile_suffix _
    rw [if_pos (beq_self_eq_true _), comment_end within]
    simpa [groupEnd] using
      (ends_from later).of_further (later.trans behind) fun _ _ => group_comment
  rw [if_neg (by simpa using comment), offset_cons within]
  by_cases opens : c = opening
  · subst opens
    rw [if_pos (beq_self_eq_true _)]
    simpa [groupEnd] using goes_on.of_further behind fun same _ => same ▸ group_open
  rw [if_neg (by simpa using opens)]
  by_cases closes : c = closing
  · subst closes
    rw [if_pos (beq_self_eq_true _)]
    rcases depth with _ | _ | inner
    · exact ⟨none, by simp, by simp, fun _ same => same ▸ group_close_none.symm⟩
    · exact ⟨some rest, by simp, by simp, fun _ same => same ▸ group_close_last.symm⟩
    · simpa [groupEnd] using goes_on.of_further behind fun _ same => same ▸ group_close
  rw [if_neg (by simpa using closes)]
  have unmarked (same : opening = '(') (same' : closing = ')') :
      Header.afterGroup? depth (c :: rest) = Header.afterGroup? depth rest := by
    subst same same'
    exact group_unmarked (by simp [groupMarks, quote, comment, opens, closes])
  simpa [groupEnd] using goes_on.of_further behind unmarked

theorem group_end (opening closing : Char) (depth : Nat) {point : List Char}
    (within : point <:+ text) :
    EndsGroup text opening closing depth point
      (groupEnd text opening closing depth (offsetOf text point)) := by
  -- A string or a comment is passed in one turn, so the points further on may be any of them.
  induction size : point.length using Nat.strong_induction_on generalizing depth point with
  | _ size ih =>
    subst size
    cases point with
    | nil =>
        rw [groupEnd, loop_turn, groupTurn, peek_point within]
        exact ⟨none, by simp, by simp, fun _ _ => (Header.after_group_nil depth).symm⟩
    | cons c rest =>
        refine group_turn within fun later => ?_
        have shorter := Nat.lt_succ_of_le later.length_le
        exact ih _ shorter _ (later.trans (suffix_of_cons within)) rfl

theorem optional_group (opening closing : Char) {point : List Char} (within : point <:+ text) :
    ∃ read : Option (List Char),
      optionalGroup text opening closing (offsetOf text point) =
        Part.some (read.map (offsetOf text)) ∧ ∀ next ∈ read, next <:+ point := by
  rw [optionalGroup, peek_point within, Part.bind_eq_bind, Part.bind_some]
  split
  · obtain ⟨read, ends, onward, _⟩ := group_end opening closing 0 within
    exact ⟨read, ends, onward⟩
  · exact ⟨some point, rfl, by simp⟩

theorem optional_parentheses {point : List Char} (within : point <:+ text) :
    optionalGroup text '(' ')' (offsetOf text point) =
      Part.some ((Header.afterOptionalGroup? point).map (offsetOf text)) := by
  rw [optionalGroup, peek_point within, Part.bind_eq_bind, Part.bind_some]
  split
  · next opens =>
    obtain ⟨rest, rfl⟩ := starts_with_iff.mp opens
    obtain ⟨read, ends, _, same⟩ := group_end '(' ')' 0 within
    rw [ends, same rfl rfl, group_open]
    rfl
  · next other =>
    rw [without_group]
    · rfl
    · exact fun tail same => other (starts_with_iff.mpr ⟨tail, same⟩)

end Groups

end GraphQL.Scan
