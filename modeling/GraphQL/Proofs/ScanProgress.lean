import GraphQL.Proofs.ByteScans
import GraphQL.Proofs.PlacesAndPoints

/-! Scans move forward. From an offset at which a text can be cut, every scan comes to an end, in
a text that is malformed or breaks off as well, and whatever it finds is at such an offset
between the first one and the end of the text. -/
namespace GraphQL.Scan
open Text

/-! A step leads on. -/
section Onward
variable {point next : List Char}

theorem after_name_suffix (named : Header.afterName? point = some next) : next <:+ point := by
  unfold Header.afterName? at named
  split at named
  · split at named
    · cases named
      exact (List.dropWhile_suffix _).trans (List.suffix_cons _ _)
    · cases named
  · cases named

theorem after_optional_group_suffix (grouped : Header.afterOptionalGroup? point = some next) :
    next <:+ point := by
  unfold Header.afterOptionalGroup? at grouped
  split at grouped
  · next rest =>
    obtain ⟨read, _, onward, same⟩ := group_end '(' ')' 1 (List.suffix_refl rest)
    rw [← same rfl rfl] at grouped
    exact (onward next grouped).trans (List.suffix_cons _ _)
  · cases grouped
    exact List.suffix_refl _

theorem after_directive_suffix {rest called : List Char}
    (named : Header.afterName? (Header.skipIgnored rest) = some called)
    (grouped : Header.afterOptionalGroup? (Header.skipIgnored called) = some next) :
    Header.skipIgnored next <:+ rest :=
  calc Header.skipIgnored next <:+ next := skip_ignored_suffix next
    _ <:+ Header.skipIgnored called := after_optional_group_suffix grouped
    _ <:+ called := skip_ignored_suffix called
    _ <:+ Header.skipIgnored rest := after_name_suffix named
    _ <:+ rest := skip_ignored_suffix rest

theorem after_directives_suffix (passed : Header.afterDirectives? point = some next) :
    next <:+ point := by
  fun_induction Header.afterDirectives? point with
  | case1 => cases passed
  | case2 => cases passed
  | case3 rest called named behind grouped ih =>
      exact (ih passed).trans
        ((after_directive_suffix named grouped).trans (List.suffix_cons _ _))
  | case4 =>
      cases passed
      exact List.suffix_refl _

/-- The steps that are not optional each pass a token. -/
def PassesToken : Header.Step → Prop
  | .keyword _ | .name | .punct _ => True
  | _ => False

theorem step_suffix {wanted : Header.Step} (stepped : Header.step point wanted = some next) :
    next <:+ Header.skipIgnored point ∧
      (PassesToken wanted → next.length < (Header.skipIgnored point).length) := by
  unfold Header.step at stepped
  generalize Header.skipIgnored point = point at stepped
  cases wanted with
  | directives => exact ⟨after_directives_suffix stepped, nofun⟩
  | optionalGroup => exact ⟨after_optional_group_suffix stepped, nofun⟩
  | name => exact ⟨after_name_suffix stepped, fun _ => Header.after_name_length _ _ stepped⟩
  | keyword word =>
      dsimp only at stepped
      split at stepped
      · exact ⟨after_name_suffix stepped, fun _ => Header.after_name_length _ _ stepped⟩
      · cases stepped
  | optionalPunct c =>
      refine ⟨?_, nofun⟩
      cases point with
      | nil =>
          cases stepped
          exact List.suffix_refl _
      | cons d rest =>
          dsimp only at stepped
          split at stepped
          · cases stepped
            exact List.suffix_cons _ _
          · cases stepped
            exact List.suffix_refl _
  | optionalString =>
      refine ⟨?_, nofun⟩
      cases point with
      | nil =>
          cases stepped
          exact List.suffix_refl _
      | cons d rest =>
          by_cases quote : d = '"'
          · subst quote
            exact (StringValue.after_suffix stepped).trans (List.suffix_cons _ _)
          · have kept : d :: rest = next := by simpa [quote] using stepped
            exact kept ▸ List.suffix_refl _
  | punct c =>
      cases point with
      | nil => cases stepped
      | cons d rest =>
          dsimp only at stepped
          split at stepped
          · cases stepped
            exact ⟨List.suffix_cons _ _, fun _ => Nat.lt_succ_self _⟩
          · cases stepped

theorem step_onward {wanted : Header.Step} (stepped : Header.step point wanted = some next) :
    next <:+ point ∧ (PassesToken wanted → next.length < point.length) := by
  obtain ⟨suffix, shorter⟩ := step_suffix stepped
  exact ⟨suffix.trans (skip_ignored_suffix point),
    fun token => Nat.lt_of_lt_of_le (shorter token) (skip_ignored_suffix point).length_le⟩

/-- Steps end where a token starts or the text ends. -/
theorem steps_onward {wanted : List Header.Step} (stepped : Header.steps point wanted = some next) :
    next <:+ point ∧ Header.skipIgnored next = next := by
  induction wanted generalizing point with
  | nil =>
      cases stepped
      exact ⟨skip_ignored_suffix point, skip_ignored_twice point⟩
  | cons first more ih =>
      obtain ⟨between, firstly, later⟩ := Option.bind_eq_some_iff.mp stepped
      obtain ⟨suffix, skipped⟩ := ih later
      exact ⟨suffix.trans (step_onward firstly).1, skipped⟩

theorem seek_onward {text : List Char} {place : Position} {wanted : List Header.Step}
    (starts : Ruler.restAt text place = some point)
    (sought : Header.seek text place wanted = some next) :
    next <:+ point ∧ Header.skipIgnored next = next := by
  rw [Header.seek, starts] at sought
  exact steps_onward sought

theorem separated_names_onward {separator : Char} {count : Nat} {start : Option (List Char)}
    (named : some next ∈ Header.separatedNames separator count start) :
    ∃ point ∈ start, next <:+ point := by
  induction count generalizing start with
  | zero => cases named
  | succ count ih =>
      rcases List.mem_cons.mp named with rfl | later
      · exact ⟨next, rfl, List.suffix_refl _⟩
      · obtain ⟨between, found, onward⟩ := ih later
        obtain ⟨point, member, stepped⟩ := Option.bind_eq_some_iff.mp found
        exact ⟨point, member, onward.trans (steps_onward stepped).1⟩

/-- The entry of a schema definition at a point, and the point of the next one. -/
def rootTypeAt? (point : List Char) : Option ((String × List Char) × List Char) := do
  let type ← Header.steps point [.name, .punct ':']
  let next ← Header.step type .name
  return ((Header.leadingName point, type), Header.skipIgnored next)

theorem root_entries_turn (room : Nat) (point : List Char) :
    Header.rootEntries (room + 1) point =
      (rootTypeAt? point).elim [] fun read => read.1 :: Header.rootEntries room read.2 := by
  rw [Header.rootEntries, rootTypeAt?]
  cases Header.steps point [.name, .punct ':'] with
  | none => rfl
  | some type =>
      rw [Option.bind_eq_bind, Option.bind_some]
      dsimp only
      cases Header.step type .name <;> rfl

/-- An entry takes a name at least, and the next one starts with a token. -/
theorem root_type_at_onward {entry : String × List Char}
    (read : rootTypeAt? point = some (entry, next)) :
    entry.2 <:+ point ∧ next <:+ entry.2 ∧ next.length < entry.2.length ∧
      Header.skipIgnored next = next := by
  obtain ⟨type, stepped, read⟩ := Option.bind_eq_some_iff.mp read
  obtain ⟨behind, named, read⟩ := Option.bind_eq_some_iff.mp read
  cases read
  obtain ⟨onward, shorter⟩ := step_onward named
  have skipped : Header.skipIgnored behind <:+ behind := skip_ignored_suffix behind
  exact ⟨(steps_onward stepped).1, skipped.trans onward,
    Nat.lt_of_le_of_lt skipped.length_le (shorter trivial), skip_ignored_twice behind⟩

theorem root_entries_onward {room : Nat} {entry : String × List Char}
    (listed : entry ∈ Header.rootEntries room point) : entry.2 <:+ point := by
  induction room generalizing point with
  | zero => cases listed
  | succ room ih =>
      rw [root_entries_turn] at listed
      cases read : rootTypeAt? point with
      | none =>
          rw [read] at listed
          cases listed
      | some pair =>
          obtain ⟨type_onward, next_onward, _⟩ := root_type_at_onward read
          rw [read] at listed
          rcases List.mem_cons.mp listed with rfl | later
          · exact type_onward
          · exact (ih later).trans (next_onward.trans type_onward)

theorem root_types_onward {text : List Char} {place : Position} {entry : String × List Char}
    (starts : Ruler.restAt text place = some point)
    (listed : entry ∈ Header.rootTypes text place) : entry.2 <:+ point := by
  rw [Header.rootTypes] at listed
  split at listed
  · next inside sought => exact (root_entries_onward listed).trans (seek_onward starts sought).1
  · cases listed

end Onward

section Steps
variable {text : List Char}

/-- One turn of the loop over directives. -/
theorem directive_turn {rest : List Char} (within : '@' :: rest <:+ text) :
    directivesEnd text (offsetOf text ('@' :: rest)) =
      match Header.afterName? (Header.skipIgnored rest) with
      | none => Part.some none
      | some called =>
          match Header.afterOptionalGroup? (Header.skipIgnored called) with
          | none => Part.some none
          | some next => directivesEnd text (offsetOf text (Header.skipIgnored next)) := by
  have skipped : Header.skipIgnored rest <:+ text :=
    (skip_ignored_suffix rest).trans (suffix_of_cons within)
  have sign : offsetOf text ('@' :: rest) + 1 = offsetOf text rest := offset_cons within
  rw [directivesEnd, loop_turn, directiveTurn, peek_point within]
  simp only [Part.bind_eq_bind, Part.bind_some, List.head?_cons, beq_self_eq_true, if_true,
    sign, skip_ignored (suffix_of_cons within), name_end skipped]
  cases named : Header.afterName? (Header.skipIgnored rest) with
  | none => simp
  | some called =>
      have behind : called <:+ text := (after_name_suffix named).trans skipped
      have skipped' : Header.skipIgnored called <:+ text :=
        (skip_ignored_suffix called).trans behind
      simp only [Option.map_some, skip_ignored behind, Part.bind_some,
        optional_parentheses skipped']
      cases grouped : Header.afterOptionalGroup? (Header.skipIgnored called) with
      | none => simp
      | some next =>
          have further : next <:+ text := (after_optional_group_suffix grouped).trans skipped'
          simp [skip_ignored further, directivesEnd]

theorem directives_end {point : List Char} (within : point <:+ text) :
    directivesEnd text (offsetOf text point) =
      Part.some ((Header.afterDirectives? point).map (offsetOf text)) := by
  fun_induction Header.afterDirectives? point with
  | case1 rest unnamed =>
      rw [directive_turn within, unnamed]
      rfl
  | case2 rest called named ungrouped =>
      simp only [directive_turn within, named, ungrouped, Option.map_none]
  | case3 rest called named next grouped ih =>
      simp only [directive_turn within, named, grouped]
      exact ih ((after_directive_suffix named grouped).trans (suffix_of_cons within))
  | case4 point other =>
      have no_sign : ¬ (point.head? == some '@') = true := by
        rw [starts_with_iff]
        exact fun ⟨rest, same⟩ => other rest same
      rw [directivesEnd, loop_turn, directiveTurn, peek_point within, Part.bind_eq_bind,
        Part.bind_some, if_neg no_sign]
      simp

theorem step_end {point : List Char} (within : point <:+ text) (wanted : Header.Step) :
    step text (offsetOf text point) wanted =
      Part.some ((Header.step point wanted).map (offsetOf text)) := by
  have skipped : Header.skipIgnored point <:+ text := (skip_ignored_suffix point).trans within
  rw [step, skip_ignored within, Part.bind_eq_bind, Part.bind_some]
  unfold Header.step
  generalize Header.skipIgnored point = point at skipped
  cases wanted with
  | directives => exact directives_end skipped
  | name => exact name_end skipped
  | optionalGroup => exact optional_parentheses skipped
  | keyword word =>
      simp only [name_end skipped, Part.bind_eq_bind, Part.bind_some]
      cases named : Header.afterName? point with
      | none => simp
      | some next =>
          have same : (Header.leadingName point == word) =
              decide (point.takeWhile isNamePart = word.toList) := by
            rw [Header.leadingName, Bool.eq_iff_iff, beq_iff_eq, decide_eq_true_iff,
              ← String.toList_inj, String.toList_ofList]
          simp only [Option.map_some, slice_of_name skipped named, same, Part.bind_some,
            decide_eq_true_eq]
          split <;> rfl
  | optionalPunct c =>
      simp only [peek_point skipped, Part.bind_eq_bind, Part.bind_some]
      cases point with
      | nil => rfl
      | cons d rest =>
          by_cases same : d = c
          · subst same
            simp [offset_cons skipped]
          · simp [same]
  | optionalString =>
      simp only [peek_point skipped, Part.bind_eq_bind, Part.bind_some]
      cases point with
      | nil => rfl
      | cons d rest =>
          by_cases quote : d = '"'
          · subst quote
            exact string_end skipped
          · simp [quote]
  | punct c =>
      simp only [peek_point skipped, Part.bind_eq_bind, Part.bind_some]
      cases point with
      | nil => rfl
      | cons d rest =>
          by_cases same : d = c
          · subst same
            simp [offset_cons skipped]
          · simp [same]

theorem steps_end {point : List Char} (within : point <:+ text) (wanted : List Header.Step) :
    steps text (offsetOf text point) (wanted.map .header) =
      Part.some ((Header.steps point wanted).map (offsetOf text)) := by
  induction wanted generalizing point with
  | nil =>
      rw [List.map_nil, steps, skip_ignored within, Part.bind_eq_bind, Part.bind_some]
      rfl
  | cons first more ih =>
      rw [List.map_cons, steps, stepOver, step_end within, Header.steps, Part.bind_eq_bind,
        Part.bind_some]
      cases stepped : Header.step point first with
      | none => rfl
      | some next => exact ih ((step_onward stepped).1.trans within)

/-- Steps over groups between any two characters lead to points further on as well. -/
theorem step_over_leads {point : List Char} (within : point <:+ text) (wanted : Wanted) :
    ∃ read : Option (List Char),
      stepOver text (offsetOf text point) wanted = Part.some (read.map (offsetOf text)) ∧
        ∀ next ∈ read, next <:+ point := by
  cases wanted with
  | header wanted =>
      exact ⟨Header.step point wanted, step_end within wanted,
        fun _ stepped => (step_onward stepped).1⟩
  | group opening closing =>
      have skipped : Header.skipIgnored point <:+ point := skip_ignored_suffix point
      obtain ⟨read, ends, onward⟩ := optional_group opening closing (skipped.trans within)
      refine ⟨read, ?_, fun next member => (onward next member).trans skipped⟩
      rw [stepOver, skip_ignored within, Part.bind_eq_bind, Part.bind_some, ends]

theorem steps_lead {point : List Char} (within : point <:+ text) (wanted : List Wanted) :
    ∃ read : Option (List Char),
      steps text (offsetOf text point) wanted = Part.some (read.map (offsetOf text)) ∧
        ∀ next ∈ read, next <:+ point := by
  induction wanted generalizing point with
  | nil => exact ⟨Header.steps point [], steps_end within [], fun _ read => (steps_onward read).1⟩
  | cons first more ih =>
      obtain ⟨read, ends, onward⟩ := step_over_leads within first
      rw [steps, ends, Part.bind_eq_bind, Part.bind_some]
      cases read with
      | none => exact ⟨none, rfl, by simp⟩
      | some between =>
          have reached : between <:+ point := onward between rfl
          obtain ⟨last, ends, further⟩ := ih (reached.trans within)
          exact ⟨last, ends, fun next member => (further next member).trans reached⟩

theorem seek_end (place : Position) (wanted : List Header.Step) :
    seek text place (wanted.map .header) =
      Part.some ((Header.seek text place wanted).map (offsetOf text)) := by
  rw [seek, offsetAt?, Header.seek]
  cases found : Ruler.restAt text place with
  | none => rfl
  | some point => exact steps_end (Ruler.place_of_rest_at found).2.1 wanted

end Steps

section Names
variable {text : List Char}

theorem separated_names (separator : Char) (count : Nat) (start : Option (List Char))
    (within : ∀ point ∈ start, point <:+ text) :
    separatedNames text separator count (start.map (offsetOf text)) =
      Part.some
        ((Header.separatedNames separator count start).map (Option.map (offsetOf text))) := by
  induction count generalizing start with
  | zero => rfl
  | succ count ih =>
      cases start with
      | none =>
          have later := ih none (by simp)
          rw [Option.map_none] at later ⊢
          rw [separatedNames, later, Part.bind_eq_bind, Part.bind_some]
          rfl
      | some point =>
          have later := ih (Header.afterSeparator? separator point)
            fun next stepped => (steps_onward stepped).1.trans (within point rfl)
          have stepped := steps_end (within point rfl) [.name, .punct separator]
          rw [List.map_cons, List.map_singleton] at stepped
          rw [Option.map_some, separatedNames, stepped, Part.bind_eq_bind, Part.bind_some]
          rw [Header.afterSeparator?] at later
          rw [later, Part.bind_eq_bind, Part.bind_some]
          rfl

theorem root_turn (found : List (String × Nat)) {point : List Char} (within : point <:+ text)
    (skipped : Header.skipIgnored point = point) :
    rootTurn text (found, offsetOf text point) =
      Part.some ((rootTypeAt? point).elim (.inl found) fun read =>
        .inr (found ++ [(read.1.1, offsetOf text read.1.2)], offsetOf text read.2)) := by
  rw [rootTurn, step_end within, rootTypeAt?, Header.steps]
  cases named : Header.step point .name with
  | none => simp
  | some called =>
      have behind_name : called <:+ text := (step_onward named).1.trans within
      have word : Header.afterName? point = some called := by
        rwa [Header.step_name, skipped] at named
      simp only [Option.map_some, Part.bind_eq_bind, Part.bind_some, step_end behind_name,
        slice_of_name within word, Header.steps]
      cases colon : Header.step called (.punct ':') with
      | none => simp [colon]
      | some behind =>
          have behind_colon : behind <:+ text := (step_onward colon).1.trans behind_name
          have type_within : Header.skipIgnored behind <:+ text :=
            (skip_ignored_suffix behind).trans behind_colon
          simp only [Option.map_some, Part.bind_some, skip_ignored behind_colon,
            step_end type_within]
          cases typed : Header.step (Header.skipIgnored behind) .name with
          | none => simp [colon, typed]
          | some next =>
              have next_within : next <:+ text := (step_onward typed).1.trans type_within
              simp [colon, typed, skip_ignored next_within, Header.leadingName]

theorem root_entries (room : Nat) (found : List (String × Nat)) {point : List Char}
    (within : point <:+ text) (enough : point.length ≤ room)
    (skipped : Header.skipIgnored point = point) :
    rootEntries text found (offsetOf text point) =
      Part.some (found ++
        (Header.rootEntries room point).map fun entry => (entry.1, offsetOf text entry.2)) := by
  induction room generalizing point found with
  | zero =>
      obtain rfl : point = [] := List.eq_nil_of_length_eq_zero (Nat.le_zero.mp enough)
      have none_left : rootTypeAt? [] = none := by
        simp [rootTypeAt?, Header.steps, Header.step_name, skipped, Header.afterName?]
      rw [rootEntries, loop_turn, root_turn found within skipped, none_left]
      simp [Header.rootEntries]
  | succ room ih =>
      -- The entry passes a name, so there is room for the ones behind it.
      rw [rootEntries, loop_turn, root_turn found within skipped, root_entries_turn]
      cases read : rootTypeAt? point with
      | none => simp
      | some pair =>
          obtain ⟨type_onward, next_onward, shorter, next_skipped⟩ := root_type_at_onward read
          have passed : pair.2.length < point.length :=
            Nat.lt_of_lt_of_le shorter type_onward.length_le
          have later := ih (found ++ [(pair.1.1, offsetOf text pair.1.2)])
            (next_onward.trans (type_onward.trans within))
            (Nat.le_of_lt_succ (Nat.lt_of_lt_of_le passed enough)) next_skipped
          simpa [rootEntries] using later

theorem root_types (place : Position) :
    rootTypes text place =
      Part.some
        ((Header.rootTypes text place).map fun entry => (entry.1, offsetOf text entry.2)) := by
  rw [rootTypes, seek_end, Header.rootTypes, Part.bind_eq_bind, Part.bind_some]
  cases found : Header.seek text place [.keyword "schema", .directives, .punct '{'] with
  | none => rfl
  | some inside =>
      obtain ⟨point, starts, _⟩ := Option.bind_eq_some_iff.mp found
      obtain ⟨onward, skipped⟩ := seek_onward starts found
      exact root_entries inside.length [] (onward.trans (Ruler.place_of_rest_at starts).2.1)
        (Nat.le_refl _) skipped

end Names

section Results
variable {text : List Char} {offset : Nat}

/-- A scan from an offset ends, and what it finds is the offset of what is read, not in front of
where it started. -/
structure Leads (text : List Char) (offset : Nat) (scan : Part (Option Nat))
    (read : Option (List Char)) : Prop where
  ends : scan = Part.some (read.map (offsetOf text))
  ahead : ∀ next ∈ read, Ahead text offset (offsetOf text next)

/-- A place has the offset of the point that the ruler finds. -/
theorem rest_at_of_offset {place : Position} {point : List Char}
    (starts : restFrom? text offset = some point) (found : offsetAt? text place = some offset) :
    Ruler.restAt text place = some point := by
  obtain ⟨other, sought, same⟩ := Option.map_eq_some_iff.mp found
  have other_starts : restFrom? text offset = some other :=
    rest_from_iff.mpr ⟨(Ruler.place_of_rest_at sought).2.1, same⟩
  rwa [← starts, other_starts]

/-- From an offset at which a text can be cut, all scans come to an end, and they cut the text
nowhere else than at such offsets. They find what the header steps read from there, at offsets
at which the text can be cut, between the first one and the end of the text; a keyword, a name
and a sign end behind the first one. -/
theorem scans_move_forward {point : List Char} (starts : restFrom? text offset = some point) :
    skipIgnored text offset = Part.some (offsetOf text (Header.skipIgnored point)) ∧
      Ahead text offset (offsetOf text (Header.skipIgnored point)) ∧
      (∀ wanted, Leads text offset (step text offset wanted) (Header.step point wanted) ∧
        (PassesToken wanted →
          ∀ next ∈ Header.step point wanted, offset < offsetOf text next)) ∧
      (∀ opening closing, ∃ read,
        Leads text offset (stepOver text offset (.group opening closing)) read) ∧
      (∀ place, offsetAt? text place = some offset →
        (∀ wanted,
          seek text place (wanted.map .header) =
            Part.some ((Header.seek text place wanted).map (offsetOf text))) ∧
          ∀ wanted, ∃ read, Leads text offset (seek text place wanted) read) ∧
      (∀ separator count,
        let names := Header.separatedNames separator count (some point)
        separatedNames text separator count (some offset) =
            Part.some (names.map (Option.map (offsetOf text))) ∧
          ∀ next, some next ∈ names → Ahead text offset (offsetOf text next)) ∧
      ∀ place, offsetAt? text place = some offset →
        let entries := Header.rootTypes text place
        rootTypes text place =
            Part.some (entries.map fun entry => (entry.1, offsetOf text entry.2)) ∧
          ∀ entry ∈ entries, Ahead text offset (offsetOf text entry.2) := by
  have reached {place : Position} (found : offsetAt? text place = some offset) :
      Ruler.restAt text place = some point := rest_at_of_offset starts found
  obtain ⟨within, rfl⟩ := rest_from_iff.mp starts
  have ahead {next : List Char} (onward : next <:+ point) :
      Ahead text (offsetOf text point) (offsetOf text next) := ahead_of_suffix within onward
  refine ⟨skip_ignored within, ahead (skip_ignored_suffix point), fun wanted => ⟨?_, ?_⟩,
    fun opening closing => ?_, fun place found => ⟨seek_end place, fun wanted => ?_⟩,
    fun separator count => ⟨?_, ?_⟩, fun place found => ⟨root_types place, ?_⟩⟩
  · exact ⟨step_end within wanted, fun next stepped => ahead (step_onward stepped).1⟩
  · intro token next stepped
    obtain ⟨onward, shorter⟩ := step_onward stepped
    exact offset_lt within onward (shorter token)
  · obtain ⟨read, ends, onward⟩ := step_over_leads within (.group opening closing)
    exact ⟨read, ends, fun next member => ahead (onward next member)⟩
  · obtain ⟨read, ends, onward⟩ := steps_lead within wanted
    refine ⟨read, ?_, fun next member => ahead (onward next member)⟩
    rw [seek, found]
    exact ends
  · exact separated_names separator count (some point) (by rintro _ ⟨⟩; exact within)
  · intro next named
    obtain ⟨_, ⟨⟩, onward⟩ := separated_names_onward named
    exact ahead onward
  · exact fun entry listed => ahead (root_types_onward (reached found) listed)

/-- The braces, the entry and the last comment are left open by the end of the text. -/
theorem scans_of_broken_schema :
    let point := ['s', 'c', 'h', 'e', 'm', 'a', '{', 'q', 'u', 'e', 'r', 'y', ':', 'Q', '#', 'é']
    let text := ['é', '#', 'ü', '\n'] ++ point
    restFrom? text 6 = some point ∧ offsetAt? text ⟨2, 1⟩ = some 6 ∧
      step text 6 (.keyword "schema") = Part.some (some 12) ∧ 6 < offsetOf text (point.drop 6) ∧
      separatedNames text '{' 3 (some 6) = Part.some [some 6, some 13, none] ∧
      rootTypes text ⟨2, 1⟩ = Part.some [("query", 19)] ∧
      Ahead text 6 (offsetOf text (point.drop 13)) := by
  intro point text
  have starts : restFrom? text 6 = some point := by decide
  have found : offsetAt? text ⟨2, 1⟩ = some 6 := by decide
  obtain ⟨_, _, steps, _, _, names, roots⟩ := scans_move_forward starts
  have word : Header.step point (.keyword "schema") = some (point.drop 6) := by cbv
  have listed : Header.rootTypes text ⟨2, 1⟩ = [("query", point.drop 13)] := by cbv
  have named : Header.separatedNames '{' 3 (some point) =
      [some point, some (point.drop 7), none] := by cbv
  refine ⟨starts, found, ?_, (steps (.keyword "schema")).2 trivial _ word, ?_, ?_, ?_⟩
  · rw [(steps (.keyword "schema")).1.ends, word]
    exact congrArg Part.some (by decide)
  · rw [(names '{' 3).1, named]
    exact congrArg Part.some (by decide)
  · rw [(roots ⟨2, 1⟩ found).1, listed]
    exact congrArg Part.some (by decide)
  · exact (roots ⟨2, 1⟩ found).2 _ (listed ▸ List.mem_cons_self)

end Results
end GraphQL.Scan
