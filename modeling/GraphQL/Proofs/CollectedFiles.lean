import GraphQL.CommandLine.Outcome
import GraphQL.Proofs.BuiltSchemas

/-! The files that a request collects. Whether a file is asked for shows in the path that the
walk came to it by, and it is validated under its full path. A result of a walk adds to what
is collected; what all the walks add is found by going through their results as one list. -/
namespace GraphQL

section Failures
variable {Failure : Type} {failure : Failure}

theorem bind_fails {α β : Type} {first : Except Failure α} {next : α → Except Failure β}
    (failed : first >>= next = .error failure) :
    first = .error failure ∨ ∃ value, first = .ok value ∧ next value = .error failure := by
  cases first with
  | error cause =>
      cases failed
      exact .inl rfl
  | ok value => exact .inr ⟨value, rfl, failed⟩

theorem fold_fails {State Item : Type} {step : State → Item → Except Failure State}
    {items : List Item} {state : State} (failed : items.foldlM step state = .error failure) :
    ∃ item ∈ items, ∃ state, step state item = .error failure := by
  induction items generalizing state with
  | nil => cases failed
  | cons item rest ih =>
      rw [List.foldlM_cons] at failed
      rcases bind_fails failed with first | ⟨next, _, later⟩
      · exact ⟨item, List.mem_cons_self, state, first⟩
      · obtain ⟨item, member, fails⟩ := ih later
        exact ⟨item, List.mem_cons_of_mem _ member, fails⟩

end Failures

namespace ValidateRequest

section Gathering
variable {request : ValidateRequest} {disk : Disk}

def Selected.append (first later : Selected) : Selected :=
  ⟨first.files ++ later.files, first.skipped + later.skipped⟩

theorem Selected.append_assoc (a b c : Selected) :
    (a.append b).append c = a.append (b.append c) := by
  simp only [append, List.append_assoc, Nat.add_assoc]

def wantedPaths (request : ValidateRequest) (entries : List Entry) : List String :=
  (entries.filter fun entry => entry.isFile && request.isWanted entry.path).map Entry.path

def unwantedCount (request : ValidateRequest) (entries : List Entry) : Nat :=
  entries.countP fun entry => entry.isFile && !request.isWanted entry.path

theorem wanted_paths_append (entries more : List Entry) :
    request.wantedPaths (entries ++ more) =
      request.wantedPaths entries ++ request.wantedPaths more := by
  simp only [wantedPaths, List.filter_append, List.map_append]

theorem unwanted_count_append (entries more : List Entry) :
    request.unwantedCount (entries ++ more) =
      request.unwantedCount entries + request.unwantedCount more := List.countP_append

/-- What the results of walks come to: none of them is a failure, and all wanted files lead to
their full paths. -/
def Gathers (request : ValidateRequest) (disk : Disk) (walked : List (Except WalkError Entry))
    (found : Selected) : Prop :=
  ∃ entries : List Entry, walked = entries.map .ok ∧
    (request.wantedPaths entries).map disk.resolve = found.files.map .ok ∧
    found.skipped = request.unwantedCount entries

theorem gathers_nil_iff {found : Selected} : request.Gathers disk [] found ↔ found = ⟨[], 0⟩ := by
  constructor
  · rintro ⟨entries, none, files, skipped⟩
    cases List.map_eq_nil_iff.mp none.symm
    rcases found with ⟨found, count⟩
    cases List.map_eq_nil_iff.mp files.symm
    cases skipped
    rfl
  · rintro rfl
    exact ⟨[], rfl, rfl, rfl⟩

theorem gathers_append_iff {walked later : List (Except WalkError Entry)} {found : Selected} :
    request.Gathers disk (walked ++ later) found ↔ ∃ first rest,
      request.Gathers disk walked first ∧ request.Gathers disk later rest ∧
        found = first.append rest := by
  constructor
  · rintro ⟨_, all, files, skipped⟩
    obtain ⟨entries, others, rfl, rfl, rfl⟩ := List.append_eq_map_iff.mp all
    rw [wanted_paths_append, List.map_append] at files
    obtain ⟨these, those, parts, first, rest⟩ := List.append_eq_map_iff.mp files
    rw [unwanted_count_append] at skipped
    refine ⟨⟨these, request.unwantedCount entries⟩, ⟨those, request.unwantedCount others⟩,
      ⟨entries, rfl, first.symm, rfl⟩, ⟨others, rfl, rest.symm, rfl⟩, ?_⟩
    rcases found with ⟨_, _⟩
    cases parts
    cases skipped
    rfl
  · rintro ⟨first, rest, ⟨entries, rfl, these, count⟩, ⟨others, rfl, those, more⟩, rfl⟩
    refine ⟨entries ++ others, List.map_append.symm, ?_, ?_⟩
    · rw [wanted_paths_append, List.map_append, these, those, ← List.map_append]
      rfl
    · rw [unwanted_count_append, ← count, ← more]
      rfl

/-- A step for each item that adds what the walks of the item gather, taken for all items, adds
what all their walks gather. -/
theorem fold_gathers {Item : Type} {walks : Item → List (Except WalkError Entry)}
    {step : Selected → Item → Except Outcome Selected}
    (each : ∀ start item next, step start item = .ok next ↔
      ∃ found, request.Gathers disk (walks item) found ∧ next = start.append found)
    (items : List Item) (start next : Selected) :
    items.foldlM step start = .ok next ↔
      ∃ found, request.Gathers disk (items.flatMap walks) found ∧ next = start.append found := by
  induction items generalizing start with
  | nil =>
      have unchanged : start.append ⟨[], 0⟩ = start := by simp only [Selected.append,
        List.append_nil, Nat.add_zero]
      simp only [List.flatMap_nil, gathers_nil_iff, exists_eq_left, unchanged]
      exact ⟨fun done => (Except.ok.inj done).symm, fun same => congrArg _ same.symm⟩
  | cons item rest ih =>
      rw [List.foldlM_cons, List.flatMap_cons]
      simp only [gathers_append_iff]
      constructor
      · intro folded
        obtain ⟨middle, stepped, later⟩ := bind_ok folded
        obtain ⟨first, gathered, rfl⟩ := (each start item middle).mp stepped
        obtain ⟨others, more, rfl⟩ := (ih _).mp later
        exact ⟨first.append others, ⟨first, others, gathered, more, rfl⟩,
          Selected.append_assoc start first others⟩
      · rintro ⟨_, ⟨first, others, gathered, more, rfl⟩, rfl⟩
        rw [(each start item _).mpr ⟨first, gathered, rfl⟩]
        exact (ih _).mpr ⟨others, more, (Selected.append_assoc start first others).symm⟩

end Gathering

section Collecting
variable {request : ValidateRequest} {disk : Disk} {start next : Selected}

theorem gathers_entry_iff {entry : Entry} {found : Selected} :
    request.Gathers disk [.ok entry] found ↔
      (request.wantedPaths [entry]).map disk.resolve = found.files.map .ok ∧
        found.skipped = request.unwantedCount [entry] := by
  constructor
  · rintro ⟨entries, walked, gathered⟩
    obtain ⟨_, rfl, same⟩ := List.map_eq_singleton_iff.mp walked.symm
    cases same
    exact gathered
  · exact fun gathered => ⟨[entry], rfl, gathered⟩

theorem full_path_iff {path full : String} :
    fullPath disk path = .ok full ↔ disk.resolve path = .ok full := by
  rw [fullPath]
  cases disk.resolve path with
  | error error => exact iff_of_false nofun nofun
  | ok place => exact ⟨congrArg _ ∘ Except.ok.inj, congrArg _ ∘ Except.ok.inj⟩

theorem collect_entry_iff (entry : Entry) :
    request.collectEntry disk start entry = .ok next ↔
      ∃ found, request.Gathers disk [.ok entry] found ∧ next = start.append found := by
  have adds (one : Selected)
      (done : request.collectEntry disk start entry = .ok (start.append one))
      (only : ∀ found, request.Gathers disk [.ok entry] found ↔ found = one) :
      request.collectEntry disk start entry = .ok next ↔
        ∃ found, request.Gathers disk [.ok entry] found ∧ next = start.append found := by
    simp only [only, exists_eq_left, done, Except.ok.injEq]
    exact eq_comm
  cases file : entry.isFile with
  | false =>
      refine adds ⟨[], 0⟩ ?_ fun ⟨files, skipped⟩ => ?_
      · simp [collectEntry, file, Selected.append, pure, Except.pure]
      · simp [gathers_entry_iff, wantedPaths, unwantedCount, file]
  | true =>
      cases wanted : request.isWanted entry.path with
      | false =>
          refine adds ⟨[], 1⟩ ?_ fun ⟨files, skipped⟩ => ?_
          · simp [collectEntry, file, wanted, Selected.append, pure, Except.pure]
          · simp [gathers_entry_iff, wantedPaths, unwantedCount, file, wanted]
      | true =>
          have paths : request.wantedPaths [entry] = [entry.path] := by
            simp [wantedPaths, file, wanted]
          cases resolved : disk.resolve entry.path with
          | ok full =>
              refine adds ⟨[full], 0⟩ ?_ fun ⟨files, skipped⟩ => ?_
              · simp only [collectEntry, file, wanted, if_true, full_path_iff.mpr resolved]
                rfl
              · simp [gathers_entry_iff, paths, resolved, unwantedCount, wanted,
                  List.map_eq_singleton_iff, eq_comm (a := [Except.ok full])]
          | error error =>
              refine iff_of_false ?_ ?_
              · simp only [collectEntry, file, wanted, if_true, fullPath, resolved]
                exact nofun
              · rintro ⟨⟨files, _⟩, gathered, _⟩
                have none := (gathers_entry_iff.mp gathered).1
                rw [paths, List.map_singleton, resolved] at none
                cases files <;> cases none

theorem collect_from_iff (start : Selected) (path : String) (next : Selected) :
    request.collectFrom disk start path = .ok next ↔
      ∃ found, request.Gathers disk (disk.walk path) found ∧ next = start.append found := by
  have each (start : Selected) (walked : Except WalkError Entry) (next : Selected) :
      (walked.mapError (Outcome.unscannable path) >>= request.collectEntry disk start) =
          .ok next ↔
        ∃ found, request.Gathers disk [walked] found ∧ next = start.append found := by
    cases walked with
    | ok entry => exact collect_entry_iff entry
    | error error =>
        refine iff_of_false nofun ?_
        rintro ⟨_, ⟨entries, walked, _⟩, _⟩
        cases entries <;> cases walked
  have all := fold_gathers each (disk.walk path) start next
  rwa [List.flatMap_singleton'] at all

theorem walks_gather {found : Selected} :
    request.paths.foldlM (request.collectFrom disk) ⟨[], 0⟩ = .ok found ↔
      request.Gathers disk (request.paths.flatMap disk.walk) found := by
  have only (more : Selected) : Selected.append ⟨[], 0⟩ more = more := by
    simp only [Selected.append, List.nil_append, Nat.zero_add]
  simp only [fold_gathers collect_from_iff, only, exists_eq_right']

/-- The walks have found no file to validate, and the only path leads to a file. -/
structure Alone (request : ValidateRequest) (disk : Disk) (found : Selected) (path : String) :
    Prop where
  none : found.files = []
  only : request.paths = [path]
  isFile : disk.isFile path = true

theorem or_alone_of_alone {found : Selected} {path : String}
    (alone : request.Alone disk found path) :
    request.orAlone disk found = (do return ⟨[← fullPath disk path], found.skipped - 1⟩) := by
  simp only [orAlone, alone.none, alone.only, alone.isFile, if_true]

theorem or_alone_of_usual {found : Selected} (usual : ∀ path, ¬ request.Alone disk found path) :
    request.orAlone disk found = .ok found := by
  rw [orAlone]
  split
  next path none only =>
    exact if_neg fun file => usual path ⟨none, only, file⟩
  next => rfl

/-- The files that are validated: what the walks of all paths gather, or else the file that the
only path leads to. -/
inductive Collected (request : ValidateRequest) (disk : Disk) : Selected → Prop
  | gathered {found : Selected}
      (walked : request.Gathers disk (request.paths.flatMap disk.walk) found)
      (usual : ∀ path, ¬ request.Alone disk found path) : Collected request disk found
  | alone {found : Selected} {path full : String}
      (walked : request.Gathers disk (request.paths.flatMap disk.walk) found)
      (alone : request.Alone disk found path) (resolved : disk.resolve path = .ok full) :
      Collected request disk ⟨[full], found.skipped - 1⟩

theorem collect_iff {selected : Selected} :
    request.collect disk = .ok selected ↔ request.Collected disk selected := by
  constructor
  · intro collected
    obtain ⟨found, walked, rest⟩ := bind_ok collected
    rw [walks_gather] at walked
    by_cases single : ∃ path, request.Alone disk found path
    · obtain ⟨path, alone⟩ := single
      rw [or_alone_of_alone alone] at rest
      obtain ⟨full, resolved, done⟩ := bind_ok rest
      cases done
      exact .alone walked alone (full_path_iff.mp resolved)
    · have usual := not_exists.mp single
      rw [or_alone_of_usual usual] at rest
      cases rest
      exact .gathered walked usual
  · intro collected
    cases collected with
    | gathered walked usual =>
        rw [collect, walks_gather.mpr walked]
        exact or_alone_of_usual usual
    | alone walked alone resolved =>
        rw [collect, walks_gather.mpr walked]
        refine (or_alone_of_alone alone).trans ?_
        rw [full_path_iff.mpr resolved]
        rfl

end Collecting

section Failing
variable {request : ValidateRequest} {disk : Disk} {outcome : Outcome}

inductive CollectionFailure (request : ValidateRequest) (disk : Disk) : Outcome → Prop
  | unscannable {path : String} {error : WalkError} (named : path ∈ request.paths)
      (walked : .error error ∈ disk.walk path) :
      CollectionFailure request disk (.unscannable path error)
  | unresolved {path : String} {error : SystemError} (failed : disk.resolve path = .error error) :
      CollectionFailure request disk (.unresolved path error)

theorem CollectionFailure.succeeded (failure : request.CollectionFailure disk outcome) :
    outcome.succeeded = false := by
  cases failure <;> rfl

theorem full_path_fails {path : String} (failed : fullPath disk path = .error outcome) :
    request.CollectionFailure disk outcome := by
  rw [fullPath] at failed
  cases resolved : disk.resolve path with
  | ok full =>
      rw [resolved] at failed
      cases failed
  | error error =>
      rw [resolved] at failed
      cases failed
      exact .unresolved resolved

theorem collect_entry_fails {entry : Entry} {state : Selected}
    (failed : request.collectEntry disk state entry = .error outcome) :
    request.CollectionFailure disk outcome := by
  rw [collectEntry] at failed
  split at failed
  · split at failed
    · rcases bind_fails failed with unresolved | ⟨_, _, failed⟩
      · exact full_path_fails unresolved
      · cases failed
    · cases failed
  · cases failed

theorem collect_from_fails {path : String} {state : Selected} (named : path ∈ request.paths)
    (failed : request.collectFrom disk state path = .error outcome) :
    request.CollectionFailure disk outcome := by
  obtain ⟨walked, member, state, fails⟩ := fold_fails failed
  cases walked with
  | ok entry => exact collect_entry_fails fails
  | error error =>
      cases fails
      exact .unscannable named member

theorem or_alone_fails {found : Selected}
    (failed : request.orAlone disk found = .error outcome) :
    request.CollectionFailure disk outcome := by
  by_cases single : ∃ path, request.Alone disk found path
  · obtain ⟨path, alone⟩ := single
    rw [or_alone_of_alone alone] at failed
    rcases bind_fails failed with unresolved | ⟨_, _, failed⟩
    · exact full_path_fails unresolved
    · cases failed
  · rw [or_alone_of_usual (not_exists.mp single)] at failed
    cases failed

theorem collect_fails (failed : request.collect disk = .error outcome) :
    request.CollectionFailure disk outcome := by
  rcases bind_fails failed with walks | ⟨found, _, rest⟩
  · obtain ⟨path, named, state, fails⟩ := fold_fails walks
    exact collect_from_fails named fails
  · exact or_alone_fails rest

end Failing

end ValidateRequest
end GraphQL
