import GraphQL.CommandLine.FileTree
import GraphQL.Proofs.CollectedFiles
import GraphQL.Proofs.FindingLimit
import Mathlib.Data.List.Forall2

/-! The verdict of the validate command. A run succeeds if none of its files has left an
entry in the report, so a file that fails in any way has to leave one, however few findings
the limit has room for. -/
namespace GraphQL

/-- A file that can be read, that holds an executable document, and whose document obeys
every rule. -/
def Disk.Passes (disk : Disk) (schema : Schema) (path : String) : Prop :=
  ∃ text document, disk.readText path = .ok text ∧
    Document.readExecutable text = .ok document ∧
      validate schema document specifiedRules = .ok []

theorem Disk.passes_iff {disk : Disk} {schema : Schema} {path text : String}
    {document : Document} (read : disk.readText path = .ok text)
    (parsed : Document.readExecutable text = .ok document) (limit? : Option Nat) :
    disk.Passes schema path ↔
      validateWithin limit? schema document specifiedRules = .ok [] := by
  rw [nothing_found_within_iff specified_rules_impartial]
  constructor
  · rintro ⟨_, _, read', parsed', nothing⟩
    cases read.symm.trans read'
    cases parsed.symm.trans parsed'
    exact nothing
  · intro nothing
    exact ⟨text, document, read, parsed, nothing⟩

namespace ValidateRequest

section Findings
variable {path : String} {finding : Finding}

/-- The entries for a finding: one for each node that it is about, and a single one if there
is no such node. -/
inductive FindingEntries (path : String) (finding : Finding) : List String → Prop
  | whole (nowhere : finding.nodes = []) :
      FindingEntries path finding [path ++ ": " ++ finding.message]
  | placed (somewhere : finding.nodes ≠ []) :
      FindingEntries path finding (finding.nodes.map fun node =>
        path ++ ":" ++ node.position.text ++ ": " ++ finding.message)

theorem finding_entries (path : String) (finding : Finding) :
    FindingEntries path finding (findingLines path finding) := by
  rcases finding with ⟨message, nodes, previous⟩
  cases nodes with
  | nil => exact .whole rfl
  | cons node rest =>
      have lines : findingLines path ⟨message, node :: rest, previous⟩ =
          (node :: rest).map fun node => path ++ ":" ++ node.position.text ++ ": " ++ message := by
        simp [findingLines, Finding.places]
      rw [lines]
      exact .placed (List.cons_ne_nil node rest)

theorem FindingEntries.length_eq {entries : List String}
    (listed : FindingEntries path finding entries) :
    entries.length = max 1 finding.nodes.length := by
  cases listed with
  | whole nowhere => rw [nowhere, List.length_singleton, List.length_nil, Nat.max_zero]
  | placed somewhere =>
      rw [List.length_map]
      exact (Nat.max_eq_right (List.length_pos_iff.mpr somewhere)).symm

theorem FindingEntries.ne_nil {entries : List String}
    (listed : FindingEntries path finding entries) : entries ≠ [] := by
  apply List.ne_nil_of_length_pos
  rw [listed.length_eq]
  exact Nat.le_max_left 1 _

theorem findings_entries_nil_iff {findings : List Finding} {entries : List (List String)}
    (each : List.Forall₂ (FindingEntries path) findings entries) :
    entries.flatten = [] ↔ findings = [] := by
  cases each with
  | nil => exact iff_of_true rfl rfl
  | cons first rest =>
      refine iff_of_false (fun none => first.ne_nil ?_) (List.cons_ne_nil _ _)
      exact (List.append_eq_nil_iff.mp none).1

end Findings

section Files
variable {request : ValidateRequest} {disk : Disk} {schema : Schema} {path : String}

/-- The entries for a file: those of its findings, or a single one if it was not validated
to the end. -/
inductive FileEntries (request : ValidateRequest) (disk : Disk) (schema : Schema)
    (path : String) : List String → Prop
  | unread {error : SystemError} (failed : disk.readText path = .error error) :
      FileEntries request disk schema path [unreadable path error]
  | unparsed {text : String} {error : ReadError} (read : disk.readText path = .ok text)
      (failed : Document.readExecutable text = .error error) :
      FileEntries request disk schema path [unparsed path error]
  | unfinished {text : String} {document : Document} {fault : Fault}
      (read : disk.readText path = .ok text)
      (parsed : Document.readExecutable text = .ok document)
      (failed : validateWithin request.limit? schema document specifiedRules = .error fault) :
      FileEntries request disk schema path [unfinished path fault]
  | validated {text : String} {document : Document} {findings : List Finding}
      {entries : List (List String)} (read : disk.readText path = .ok text)
      (parsed : Document.readExecutable text = .ok document)
      (found : validateWithin request.limit? schema document specifiedRules = .ok findings)
      (each : List.Forall₂ (FindingEntries path) findings entries) :
      FileEntries request disk schema path entries.flatten

theorem file_entries (request : ValidateRequest) (disk : Disk) (schema : Schema)
    (path : String) :
    request.FileEntries disk schema path (request.report disk schema path).lines := by
  rw [report]
  cases read : disk.readText path with
  | error error => exact .unread read
  | ok text =>
      dsimp only
      cases parsed : Document.readExecutable text with
      | error error => exact .unparsed read parsed
      | ok document =>
          dsimp only
          cases found : validateWithin request.limit? schema document specifiedRules with
          | error fault => exact .unfinished read parsed found
          | ok findings =>
              refine .validated read parsed found (List.forall₂_map_right_iff.mpr ?_)
              exact List.forall₂_same.mpr fun finding _ => finding_entries _ finding

theorem FileEntries.nil_iff {entries : List String}
    (listed : request.FileEntries disk schema path entries) :
    entries = [] ↔ disk.Passes schema path := by
  cases listed with
  | unread failed =>
      refine iff_of_false (List.cons_ne_nil _ _) ?_
      rintro ⟨text, _, read, _⟩
      cases failed.symm.trans read
  | unparsed read failed =>
      refine iff_of_false (List.cons_ne_nil _ _) ?_
      rintro ⟨_, document, read', parsed, _⟩
      cases read.symm.trans read'
      cases failed.symm.trans parsed
  | unfinished read parsed failed =>
      rw [disk.passes_iff read parsed request.limit?, failed]
      exact iff_of_false (List.cons_ne_nil _ _) nofun
  | validated read parsed found each =>
      rw [findings_entries_nil_iff each, disk.passes_iff read parsed request.limit?, found]
      exact ⟨congrArg Except.ok, Except.ok.inj⟩

theorem files_entries_nil_iff {files : List String} {entries : List (List String)}
    (each : List.Forall₂ (request.FileEntries disk schema) files entries) :
    entries.flatten = [] ↔ ∀ path ∈ files, disk.Passes schema path := by
  induction each with
  | nil => exact iff_of_true rfl (List.forall_mem_nil _)
  | cons first _ ih => rw [List.flatten_cons, List.append_eq_nil_iff, first.nil_iff, ih,
      List.forall_mem_cons]

end Files

section Runs
variable {request : ValidateRequest} {disk : Disk} {schema : Schema} {selected : Selected}

theorem outcome_entries (request : ValidateRequest) (disk : Disk) (schema : Schema)
    (selected : Selected) :
    ∃ entries, List.Forall₂ (request.FileEntries disk schema) selected.files entries ∧
      ((request.outcome disk schema selected).succeeded = true ↔ entries.flatten = []) ∧
      (entries.flatten ≠ [] →
        request.outcome disk schema selected = .invalid entries.flatten) := by
  let entries := selected.files.map fun path => (request.report disk schema path).lines
  have lines : (selected.files.map (request.report disk schema)).flatMap FileReport.lines =
      entries.flatten := by
    rw [List.flatMap_map]
    rfl
  refine ⟨entries, ?_, ?_⟩
  · exact List.forall₂_map_right_iff.mpr
      (List.forall₂_same.mpr fun path _ => file_entries request disk schema path)
  · rw [outcome, lines]
    cases entries.flatten with
    | nil => exact ⟨iff_of_true rfl rfl, fun some => absurd rfl some⟩
    | cons line rest => exact ⟨iff_of_false nofun nofun, fun _ => rfl⟩

theorem run_of_collected (built : request.schema disk = .ok schema)
    (collected : request.Collected disk selected) :
    request.run disk = request.outcome disk schema selected := by
  rw [run, built]
  dsimp only
  rw [collect_iff.mpr collected]

theorem run_succeeds_iff (request : ValidateRequest) (disk : Disk) :
    (request.run disk).succeeded = true ↔
      ∃ schema selected, request.schema disk = .ok schema ∧ request.Collected disk selected ∧
        ∀ path ∈ selected.files, disk.Passes schema path := by
  constructor
  · intro succeeded
    cases built : request.schema disk with
    | error error =>
        rw [run, built] at succeeded
        cases succeeded
    | ok schema =>
        cases collected : request.collect disk with
        | error outcome =>
            rw [run, built] at succeeded
            dsimp only at succeeded
            rw [collected, (collect_fails collected).succeeded] at succeeded
            cases succeeded
        | ok selected =>
            rw [collect_iff] at collected
            obtain ⟨entries, each, passes, _⟩ := outcome_entries request disk schema selected
            rw [run_of_collected built collected] at succeeded
            exact ⟨schema, selected, rfl, collected,
              (files_entries_nil_iff each).mp (passes.mp succeeded)⟩
  · rintro ⟨schema, selected, built, collected, all⟩
    obtain ⟨entries, each, passes, _⟩ := outcome_entries request disk schema selected
    rw [run_of_collected built collected]
    exact passes.mpr ((files_entries_nil_iff each).mpr all)

theorem succeeds_within_iff (request : ValidateRequest) (disk : Disk) (limit? : Option Nat) :
    ({ request with limit? }.run disk).succeeded = true ↔
      (request.run disk).succeeded = true := by
  have same : { request with limit? }.collect disk = request.collect disk := rfl
  have collected (selected : Selected) :
      { request with limit? }.Collected disk selected ↔ request.Collected disk selected := by
    rw [← collect_iff, same, collect_iff]
  simp only [run_succeeds_iff, collected]
  exact Iff.rfl

/-- A run succeeds exactly if the schema is built, the files are collected and every one of them
passes, whatever the limit is. Otherwise the report lists the entries of the files in the
order in which the files were collected. -/
theorem verdict_is_exact (request : ValidateRequest) (disk : Disk) :
    ((request.run disk).succeeded = true ↔
      ∃ schema selected, request.schema disk = .ok schema ∧ request.Collected disk selected ∧
        ∀ path ∈ selected.files, disk.Passes schema path) ∧
      (∀ limit?,
        ({ request with limit? }.run disk).succeeded = (request.run disk).succeeded) ∧
      ∀ schema selected, request.schema disk = .ok schema → request.Collected disk selected →
        (request.run disk).succeeded = false →
        ∃ entries,
          List.Forall₂ (request.FileEntries disk schema) selected.files entries ∧
          request.run disk = .invalid entries.flatten ∧
          (request.run disk).text =
            "\n".intercalate ("❌ GraphQL validation errors:" :: entries.flatten) := by
  refine ⟨run_succeeds_iff request disk, fun limit? => ?_, ?_⟩
  · exact Bool.eq_iff_iff.mpr (succeeds_within_iff request disk limit?)
  · intro schema selected built collected failed
    obtain ⟨entries, each, passes, lists⟩ := outcome_entries request disk schema selected
    rw [run_of_collected built collected] at failed ⊢
    have some : entries.flatten ≠ [] := fun none =>
      absurd (passes.mpr none) (ne_true_of_eq_false failed)
    rw [lists some]
    exact ⟨entries, each, rfl, rfl⟩

/-- Among the queries are a link to a valid file, a file that is not valid, one that breaks off,
one that cannot be read, and one that is not asked for. -/
def fiveQueries : FileTree := .directory
  [("schema.graphql", .file "type Query { hello: Int }".toUTF8),
    ("data.txt", .file "{ hello }".toUTF8),
    ("queries", .directory
      [("valid.graphql", .link "../data.txt"), ("wrong.graphql", .file "{ bye }".toUTF8),
        ("half.graphql", .file "query".toUTF8), ("bytes.gql", .file ⟨#[255]⟩),
        ("notes.txt", .file "{ hello }".toUTF8)])]

/-- No limit lets the five queries pass. -/
theorem verdict_on_five_queries :
    let request : ValidateRequest := ⟨["schema.graphql"], [], some 0, ["queries"]⟩
    let disk := fiveQueries.disk []
    ∃ schema selected, request.schema disk = .ok schema ∧ request.Collected disk selected ∧
      selected = ⟨["/data.txt", "/queries/wrong.graphql", "/queries/half.graphql",
        "/queries/bytes.gql"], 1⟩ ∧
      (∀ limit?, ({ request with limit? }.run disk).succeeded = false) ∧
      ∃ entries, List.Forall₂ (request.FileEntries disk schema) selected.files entries ∧
        request.run disk = .invalid entries.flatten := by
  intro request disk
  have builds : (request.schema disk).isOk = true := by decide +kernel
  obtain ⟨schema, built⟩ := exists_of_is_ok builds
  have collects : (request.collect disk).isOk = true := by decide +kernel
  obtain ⟨selected, collected⟩ := exists_of_is_ok collects
  have chosen : (request.collect disk).toOption = some ⟨["/data.txt", "/queries/wrong.graphql",
      "/queries/half.graphql", "/queries/bytes.gql"], 1⟩ := by decide +kernel
  rw [collected] at chosen
  rw [collect_iff] at collected
  have failed : (request.run disk).succeeded = false := by decide +kernel
  obtain ⟨_, unlimited, lists⟩ := verdict_is_exact request disk
  obtain ⟨entries, each, reported, _⟩ := lists schema selected built collected failed
  exact ⟨schema, selected, built, collected, Option.some.inj chosen,
    fun limit? => (unlimited limit?).trans failed, entries, each, reported⟩

end Runs
end ValidateRequest
end GraphQL
