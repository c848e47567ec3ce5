import GraphQL.Proofs.EditScripts
import GraphQL.Text.Suggestion

/-! Which options are suggested for an input, and in which order. An option is kept if it is as
close as its own length and that of the input allow, and closer options come first. The order in
which the options are given decides between equally close ones and nothing else. -/
namespace GraphQL.Suggestion
open EditDistance

variable {input option : String} {options : List String}

section Measuring

/-- How far an option is from the input. Where more than the case of letters differs, the texts are
compared in lower case. -/
inductive Apart (input option : String) : Nat → Prop where
  | same (equal : input = option) : Apart input option 0
  | cased (other : input ≠ option) (equal : LowerCase.lower input = LowerCase.lower option) :
      Apart input option 1
  | edited {n : Nat} (other : LowerCase.lower input ≠ LowerCase.lower option)
      (least : IsLeast {n | Edits n (LowerCase.lower input) (LowerCase.lower option)} n) :
      Apart input option n

theorem apart_iff {n : Nat} : Apart input option n ↔ lexicalDistance input option = n := by
  constructor
  · intro apart
    cases apart with
    | same equal => rw [lexicalDistance, if_pos equal]
    | cased other equal => rw [lexicalDistance, if_neg other, if_pos equal]
    | edited other least =>
        rw [lexicalDistance, if_neg (mt (congrArg LowerCase.lower) other), if_neg other]
        exact (distance_is_least _ _).unique least
  · rintro rfl
    by_cases equal : input = option
    · rw [lexicalDistance, if_pos equal]
      exact .same equal
    · rw [lexicalDistance, if_neg equal]
      by_cases cased : LowerCase.lower input = LowerCase.lower option
      · rw [if_pos cased]
        exact .cased equal cased
      · rw [if_neg cased]
        exact .edited cased (distance_is_least _ _)

theorem distance_zero_iff : lexicalDistance input option = 0 ↔ option = input := by
  constructor
  · intro zero
    cases apart_iff.mpr zero with
    | same equal => exact equal.symm
    | edited other least => exact absurd (eq_of_no_edits least.1) other
  · rintro rfl
    exact apart_iff.mp (.same rfl)

end Measuring

section Ranking

/-- An option may differ from the input in half of the longer text, and always in one edit. -/
def Allowed (input option : String) : Prop :=
  ∃ n, Apart input option n ∧ n ≤ max (input.length / 2) (max (option.length / 2) 1)

theorem is_close_iff : isClose input option = true ↔ Allowed input option := by
  simp [isClose, threshold, Allowed, apart_iff, Nat.max_assoc]

/-- The allowed options, each as often as it is given, the closest first, and of equally close ones
that first which is given first. -/
structure Ranks (input : String) (options ranked : List String) : Prop where
  allowed : ∀ option, Allowed input option → ranked.count option = options.count option
  others : ∀ option ∈ ranked, Allowed input option
  sorted : ranked.Pairwise fun a b => ∀ m n, Apart input a m → Apart input b n → m ≤ n
  stable : ∀ n (tied : String → Bool),
    (∀ option, tied option = true ↔ Allowed input option ∧ Apart input option n) →
      ranked.filter tied = options.filter tied

def atDistance (input : String) (n : Nat) (options : List String) : List String :=
  options.filter fun option => lexicalDistance input option = n

theorem close_options_perm (input : String) (options : List String) :
    (closeOptions input options).Perm (options.filter (isClose input)) :=
  List.mergeSort_perm _ _

def closer (input a b : String) : Bool := lexicalDistance input a ≤ lexicalDistance input b

theorem closer_trans (a b c : String) (first : closer input a b = true)
    (second : closer input b c = true) : closer input a c = true := by
  simp only [closer, decide_eq_true_eq] at first second ⊢
  exact first.trans second

theorem closer_total (a b : String) : (closer input a b || closer input b a) = true := by
  simpa [closer] using Nat.le_total _ _

theorem close_options_sorted (input : String) (options : List String) :
    (closeOptions input options).Pairwise fun a b =>
      lexicalDistance input a ≤ lexicalDistance input b := by
  have sorted : (closeOptions input options).Pairwise fun a b => closer input a b = true :=
    List.pairwise_mergeSort closer_trans closer_total _
  simpa [closer] using sorted

theorem sorted_stable (input : String) (options : List String) (n : Nat) :
    atDistance input n (options.mergeSort (closer input)) = atDistance input n options := by
  have tied : (atDistance input n options).Pairwise fun a b => closer input a b = true := by
    refine List.pairwise_of_forall_mem_list fun a first b second => ?_
    have at_a : lexicalDistance input a = n := by simpa using (List.mem_filter.mp first).2
    have at_b : lexicalDistance input b = n := by simpa using (List.mem_filter.mp second).2
    rw [closer, at_a, at_b]
    exact decide_eq_true le_rfl
  have kept := (List.sublist_mergeSort closer_trans closer_total tied List.filter_sublist).filter
    fun option => lexicalDistance input option = n
  simp only [atDistance, List.filter_filter, Bool.and_self] at kept
  have length := ((List.mergeSort_perm options (closer input)).filter
    fun option => lexicalDistance input option = n).length_eq
  exact (kept.eq_of_length length.symm).symm

section Uniqueness
variable {measure : String → Nat} {some other : List String}

theorem mem_iff_of_agree
    (agree : ∀ n, (some.filter fun a => measure a = n) = other.filter fun a => measure a = n)
    (a : String) : a ∈ some ↔ a ∈ other := by
  have here := congrArg (a ∈ ·) (agree (measure a))
  simpa using here

theorem eq_of_sorted (first : some.Pairwise fun a b => measure a ≤ measure b)
    (second : other.Pairwise fun a b => measure a ≤ measure b)
    (agree : ∀ n, (some.filter fun a => measure a = n) = other.filter fun a => measure a = n) :
    some = other := by
  have same := mem_iff_of_agree agree
  induction some generalizing other with
  | nil =>
      cases other with
      | nil => rfl
      | cons b more => exact absurd ((same b).mpr List.mem_cons_self) List.not_mem_nil
  | cons a rest ih =>
      obtain ⟨least, sorted⟩ := List.pairwise_cons.mp first
      cases other with
      | nil => exact absurd ((same a).mp List.mem_cons_self) List.not_mem_nil
      | cons b more =>
          obtain ⟨least', sorted'⟩ := List.pairwise_cons.mp second
          -- Each head is in the other list, so they are at the same place of the order.
          have a_le : measure a ≤ measure b := by
            rcases List.mem_cons.mp ((same b).mpr List.mem_cons_self) with equal | later
            · exact equal ▸ le_rfl
            · exact least b later
          have b_le : measure b ≤ measure a := by
            rcases List.mem_cons.mp ((same a).mp List.mem_cons_self) with equal | later
            · exact equal ▸ le_rfl
            · exact least' a later
          have level := Nat.le_antisymm a_le b_le
          obtain ⟨rfl, _⟩ : a = b ∧ _ := by simpa [level] using agree (measure b)
          have agree_later (n : Nat) : (rest.filter fun a => measure a = n) =
              more.filter fun a => measure a = n := by
            by_cases here : measure a = n
            · simpa [here] using agree n
            · simpa [here] using agree n
          exact congrArg _ (ih sorted sorted' agree_later (mem_iff_of_agree agree_later))

end Uniqueness

theorem tied_eq {n : Nat} {tied : String → Bool}
    (tied_iff : ∀ option, tied option = true ↔ Allowed input option ∧ Apart input option n) :
    tied = fun option => decide (lexicalDistance input option = n) && isClose input option := by
  funext option
  rw [Bool.eq_iff_iff, tied_iff, ← is_close_iff, apart_iff]
  simp [and_comm]

theorem filter_tied {ranked : List String} (allowed : ∀ option ∈ ranked, Allowed input option)
    (n : Nat) : (ranked.filter fun option =>
      decide (lexicalDistance input option = n) && isClose input option) =
        atDistance input n ranked := by
  rw [← List.filter_filter, List.filter_eq_self.mpr fun option member =>
    is_close_iff.mpr (allowed option member)]
  rfl

/-- The suggested options are ranked, and there is no other way to rank them. -/
theorem close_options_iff {ranked : List String} :
    closeOptions input options = ranked ↔ Ranks input options ranked := by
  have perm := close_options_perm input options
  have stable := sorted_stable input (options.filter (isClose input))
  constructor
  · rintro rfl
    have allowed : ∀ option ∈ closeOptions input options, Allowed input option :=
      fun option member => is_close_iff.mp (List.mem_filter.mp (perm.mem_iff.mp member)).2
    refine ⟨fun option close => ?_, allowed, ?_, ?_⟩
    · rw [perm.count_eq, List.count_filter (is_close_iff.mpr close)]
    · refine (close_options_sorted input options).imp fun {a b} closer m n at_a at_b => ?_
      rwa [← apart_iff.mp at_a, ← apart_iff.mp at_b]
    · intro n tied tied_iff
      rw [tied_eq tied_iff, filter_tied allowed, ← List.filter_filter]
      exact stable n
  · intro ranks
    refine eq_of_sorted (close_options_sorted input options) ?_ fun n => (stable n).trans ?_
    · exact ranks.sorted.imp fun closer => closer _ _ (apart_iff.mpr rfl) (apart_iff.mpr rfl)
    · have tied := ranks.stable n
        (fun option => decide (lexicalDistance input option = n) && isClose input option)
        fun option => by simp [apart_iff, is_close_iff, and_comm]
      rw [filter_tied ranks.others, ← List.filter_filter] at tied
      exact tied.symm

theorem close_options_head (member : input ∈ options) :
    (closeOptions input options).head? = some input := by
  have own : Allowed input input := ⟨0, .same rfl, Nat.zero_le _⟩
  have kept : input ∈ closeOptions input options := by
    rw [(close_options_perm input options).mem_iff]
    exact List.mem_filter.mpr ⟨member, is_close_iff.mpr own⟩
  have sorted := close_options_sorted input options
  cases ranked : closeOptions input options with
  | nil => exact absurd (ranked ▸ kept) List.not_mem_nil
  | cons first rest =>
      rw [ranked] at kept sorted
      rcases List.mem_cons.mp kept with same | later
      · rw [same, List.head?_cons]
      · -- Nothing is closer than the input itself, and nothing else is as close.
        have closest := (List.pairwise_cons.mp sorted).1 input later
        rw [distance_zero_iff.mpr rfl, Nat.le_zero, distance_zero_iff] at closest
        rw [closest, List.head?_cons]

/-- Given in another order, the options are at the same distances one by one, and the options at
one distance are the same. -/
theorem close_options_reordered {other : List String} (perm : options.Perm other) :
    (closeOptions input options).map (lexicalDistance input) =
        (closeOptions input other).map (lexicalDistance input) ∧
      ∀ n, (atDistance input n (closeOptions input options)).Perm
        (atDistance input n (closeOptions input other)) := by
  have same : (closeOptions input options).Perm (closeOptions input other) :=
    ((close_options_perm input options).trans (perm.filter _)).trans
      (close_options_perm input other).symm
  refine ⟨?_, fun n => same.filter _⟩
  refine (same.map (lexicalDistance input)).eq_of_pairwise (fun m n _ _ => Nat.le_antisymm) ?_ ?_
  · exact List.pairwise_map.mpr (close_options_sorted input options)
  · exact List.pairwise_map.mpr (close_options_sorted input other)

/-- What is suggested is ranked by the distance, in the only way in which it can be. An input that
is an option itself comes first, and the order of the options counts only between options at one
distance. -/
theorem options_are_ranked (input : String) (options : List String) :
    (∀ option n, lexicalDistance input option = n ↔ Apart input option n) ∧
    (∀ ranked, closeOptions input options = ranked ↔ Ranks input options ranked) ∧
    (input ∈ options → (closeOptions input options).head? = some input) ∧
    ∀ other, options.Perm other →
      (closeOptions input options).map (lexicalDistance input) =
          (closeOptions input other).map (lexicalDistance input) ∧
        ∀ n, (atDistance input n (closeOptions input options)).Perm
          (atDistance input n (closeOptions input other)) :=
  ⟨fun _ _ => apart_iff.symm, fun _ => close_options_iff, close_options_head,
    fun _ => close_options_reordered⟩

/-- An option with an edit and one in capitals are at one distance, and the input itself is given
behind them. -/
theorem ranked_behind_capitals :
    let options := ["userX", "USER", "User", "Post"]
    let other := ["Post", "USER", "userX", "User"]
    "User" ∈ options ∧ options.Perm other ∧
      lexicalDistance "User" "userX" = 1 ∧ Apart "User" "USER" 1 ∧
      Ranks "User" options (closeOptions "User" options) ∧
      (closeOptions "User" options).head? = some "User" ∧
      (closeOptions "User" options).map (lexicalDistance "User") =
        (closeOptions "User" other).map (lexicalDistance "User") := by
  intro options other
  obtain ⟨measured, ranked, first, reordered⟩ := options_are_ranked "User" options
  have member : "User" ∈ options := by decide
  have perm : options.Perm other := by decide
  have cased : lexicalDistance "User" "USER" = 1 := by decide +kernel
  exact ⟨member, perm, by decide +kernel, (measured _ _).mp cased, (ranked _).mp rfl, first member,
    (reordered other perm).1⟩

end Ranking

end GraphQL.Suggestion
