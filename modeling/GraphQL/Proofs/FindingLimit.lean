import GraphQL.Proofs.Tracking
import Mathlib.Data.List.Basic

/-! A limit cuts the list of findings short and does nothing else. Two inspections run
side by side, one of them with a limit: as long as the limit is not exceeded they agree,
and from then on the one without it can only find more. -/
namespace GraphQL

namespace Inspection
open Attendee

section Cutting

/-- The second inspection has a limit, and has cut the findings of the first to it. -/
structure Cut (limit : Nat) (whole short : Inspection) : Prop where
  view : short.view = whole.view
  unlimited : whole.limit? = none
  unexceeded : whole.exceeded = false
  limited : short.limit? = some limit
  findings : short.findings = whole.findings.take limit
  exceeded : short.exceeded = decide (limit < whole.findings.length)

variable {limit : Nat} {whole short : Inspection}

theorem Cut.during (cut : Cut limit whole short) (event : Event) :
    Cut limit (whole.during event) (short.during event) where
  view := by rw [during_view, during_view, cut.view]
  unlimited := cut.unlimited
  unexceeded := cut.unexceeded
  limited := cut.limited
  findings := cut.findings
  exceeded := cut.exceeded

theorem Cut.beyond (cut : Cut limit whole short) (event : Event) :
    Cut limit (whole.beyond event) (short.beyond event) where
  view := by rw [beyond_view, beyond_view, cut.view]
  unlimited := cut.unlimited
  unexceeded := cut.unexceeded
  limited := cut.limited
  findings := cut.findings
  exceeded := cut.exceeded

theorem Cut.full_iff (cut : Cut limit whole short) :
    short.isFull = true ↔ limit ≤ whole.findings.length := by
  rw [isFull, cut.limited, cut.findings, List.length_take]
  simp only [Option.any_some, decide_eq_true_eq]
  omega

theorem Cut.report (cut : Cut limit whole short) (finding : Finding) :
    Cut limit (whole.report finding) (short.report finding) := by
  have reported : whole.report finding =
      { whole with findings := whole.findings ++ [finding] } := by
    rw [Inspection.report, if_neg (by simp [isFull, cut.unlimited])]
  have view := cut.view
  refine ⟨by rw [report_view, report_view, view], ?_, ?_, ?_, ?_, ?_⟩
  · rw [reported]
    exact cut.unlimited
  · rw [reported]
    exact cut.unexceeded
  · rw [Inspection.report]
    split <;> exact cut.limited
  · rw [reported, Inspection.report]
    by_cases full : limit ≤ whole.findings.length
    · rw [if_pos (cut.full_iff.mpr full), List.take_append_of_le_length full]
      exact cut.findings
    · rw [if_neg fun filled => full (cut.full_iff.mp filled)]
      simp only [cut.findings]
      rw [List.take_of_length_le (by omega), List.take_of_length_le (by simp; omega)]
  · rw [reported, Inspection.report]
    by_cases full : limit ≤ whole.findings.length
    · rw [if_pos (cut.full_iff.mpr full)]
      simp only [List.length_append, List.length_singleton]
      exact (decide_eq_true (by omega)).symm
    · rw [if_neg fun filled => full (cut.full_iff.mp filled)]
      simp only [cut.exceeded, List.length_append, List.length_singleton]
      rw [decide_eq_false (by omega), decide_eq_false (by omega)]

theorem Cut.report_all (cut : Cut limit whole short) (findings : List Finding) :
    Cut limit (whole.reportAll findings) (short.reportAll findings) := by
  induction findings generalizing whole short with
  | nil => exact cut
  | cons finding rest ih => exact ih (cut.report finding)

end Cutting

section Following
variable {limit : Nat} {whole short : Inspection}

theorem sound_of_answer {guide : Guide (Party Inspection × Inspection)}
    {state : Party Inspection × Inspection} {event : Event}
    (faultless : ∀ cause, (guide.answer state event).2 ≠ .fault cause) :
    event.phase = .entering → event.node.flaw? = none := by
  rcases event with ⟨_ | _, node⟩
  · intro _
    by_contra flawed
    obtain ⟨flaw, found⟩ := Option.ne_none_iff_exists'.mp flawed
    have same : node.flaw? = some flaw := found
    apply faultless (.malformed node.position flaw)
    simp only [Guide.answer, same]
  · nofun

theorem faultless_answer {guide : Guide (Party Inspection × Inspection)}
    {state : Party Inspection × Inspection} {event : Event} {rest : List Event}
    (faultless : ∀ cause, (guide.follow state (event :: rest)).2 ≠ .fault cause) :
    ∀ cause, (guide.answer state event).2 ≠ .fault cause := by
  intro cause faulted
  apply faultless cause
  rw [Guide.follow_ended rest (show guide.answer state event = (_, .fault cause) from
    Prod.ext rfl faulted) nofun]

theorem follow_grows (events : List Event) (depth : Nat)
    (attendees : List (Attendee View Finding)) (whole : Inspection)
    (unlimited : whole.limit? = none) (within : whole.exceeded = false) :
    let result := (tracked Party.guide).follow (board.party depth attendees, whole) events
    (∀ cause, result.2 ≠ .fault cause) →
      whole.findings <+: result.1.2.findings ∧ result.1.2.exceeded = false := by
  induction events generalizing depth attendees whole with
  | nil => exact fun _ => ⟨List.prefix_refl _, within⟩
  | cons event rest ih =>
      intro result faultless
      have sound := sound_of_answer (faultless_answer faultless)
      rcases turned : gather depth (whole.view.during event) event attendees with
        ⟨who, reports, ending⟩
      obtain ⟨party, after, answered, findings, exceeded, next⟩ :=
        tracked_answer_unlimited sound turned unlimited within
      have grows : whole.findings <+: after.findings := findings ▸ List.prefix_append ..
      by_cases goes : ending = .finished
      · subst goes
        obtain ⟨rfl, unlimited', _⟩ := next rfl
        simp only [result, Guide.follow_continued rest answered] at faultless ⊢
        obtain ⟨more, exceeded'⟩ := ih (nextDepth depth event.phase) who after unlimited' exceeded
          faultless
        exact ⟨grows.trans more, exceeded'⟩
      · simp only [result, Guide.follow_ended rest answered goes]
        exact ⟨grows, exceeded⟩

theorem take_of_prefix {found more : List Finding} (exceeds : limit < found.length)
    (grows : found <+: more) :
    found.take limit = more.take limit ∧
      decide (limit < found.length) = decide (limit < more.length) := by
  obtain ⟨rest, rfl⟩ := grows
  rw [List.take_append_of_le_length (Nat.le_of_lt exceeds), List.length_append]
  exact ⟨rfl, by rw [decide_eq_true exceeds, decide_eq_true (by omega)]⟩

theorem cut_answer {event : Event} (sound : event.phase = .entering → event.node.flaw? = none)
    (depth : Nat) (attendees : List (Attendee View Finding)) (cut : Cut limit whole short) :
    ∃ turn whole' short', Cut limit whole' short' ∧
      Answered depth event turn whole'
        ((tracked Party.guide).answer (board.party depth attendees, whole) event) ∧
      Answered depth event turn short'
        ((tracked Party.guide).answer (board.party depth attendees, short) event) := by
  have told := tracked_answer sound depth attendees short
  have inside := cut.during event
  simp only [inside.view] at told
  exact ⟨_, _, _, inside.report_all _, tracked_answer sound depth attendees whole, told⟩

/-- What an inspection finds after it has exceeded the limit makes no difference. -/
theorem Cut.full_follow (cut : Cut limit whole short) (full : short.exceeded = true)
    (events : List Event) (depth : Nat) (attendees : List (Attendee View Finding)) :
    let result := (tracked Party.guide).follow (board.party depth attendees, whole) events
    (∀ cause, result.2 ≠ .fault cause) →
      short.findings = result.1.2.findings.take limit ∧
        short.exceeded = decide (limit < result.1.2.findings.length) := by
  intro result faultless
  obtain ⟨grows, _⟩ := follow_grows events depth attendees whole cut.unlimited cut.unexceeded
    faultless
  have beyond : limit < whole.findings.length := by simpa [cut.exceeded] using full
  obtain ⟨same, longer⟩ := take_of_prefix beyond grows
  rw [cut.findings, cut.exceeded]
  exact ⟨same, longer⟩

theorem cut_follow (events : List Event) (depth : Nat)
    (attendees : List (Attendee View Finding)) (cut : Cut limit whole short)
    (within : short.exceeded = false) :
    let result := (tracked Party.guide).follow (board.party depth attendees, whole) events
    let result' := (tracked Party.guide).follow (board.party depth attendees, short) events
    (∀ cause, result.2 ≠ .fault cause) →
      (∀ cause, result'.2 ≠ .fault cause) ∧
        result'.1.2.findings = result.1.2.findings.take limit ∧
        result'.1.2.exceeded = decide (limit < result.1.2.findings.length) := by
  induction events generalizing depth attendees whole short with
  | nil =>
      refine fun _ => ⟨?_, cut.findings, cut.exceeded⟩
      rintro _ ⟨⟩
  | cons event rest ih =>
      intro result result' faultless
      have unfinished : Ending.stopped ≠ .finished := by rintro ⟨⟩
      have no_fault : ∀ cause, Ending.stopped ≠ .fault cause := by rintro _ ⟨⟩
      have faultless' := faultless_answer faultless
      obtain ⟨turn, whole', short', cut', told, told'⟩ :=
        cut_answer (sound_of_answer faultless') depth attendees cut
      rcases answered : (tracked Party.guide).answer (board.party depth attendees, whole) event with
        ⟨after, ending⟩
      rcases answered' :
        (tracked Party.guide).answer (board.party depth attendees, short) event with
        ⟨after', ending'⟩
      rw [answered] at told faultless'
      rw [answered'] at told'
      obtain ⟨ends, findings, _, next⟩ := told
      obtain ⟨ends', findings', exceeded', next'⟩ := told'
      rw [halted_within cut'.unexceeded] at ends
      dsimp only at ends ends' findings findings' exceeded' next next' faultless'
      rcases turn with ⟨who, reports, _ | _ | cause⟩
      · subst ends
        simp only [result, Guide.follow_continued rest answered, next rfl] at faultless ⊢
        by_cases exceeds : short'.exceeded = true
        · -- The first inspection goes on, but what it finds now is beyond the limit.
          rw [halted, if_pos exceeds] at ends'
          · subst ends'
            simp only [result', Guide.follow_ended rest answered' unfinished]
            obtain ⟨same, longer⟩ := (cut'.beyond event).full_follow exceeds rest _ who faultless
            exact ⟨no_fault, findings'.trans same, exceeded'.trans longer⟩
          · rintro _ ⟨⟩
        · rw [halted_within (Bool.eq_false_iff.mpr exceeds)] at ends'
          subst ends'
          simp only [result', Guide.follow_continued rest answered', next' rfl]
          exact ih _ who (cut'.beyond event) (Bool.eq_false_iff.mpr exceeds) faultless
      · -- A rule stops both inspections, and all that was reported until then is kept.
        subst ends
        rw [halted, ite_self] at ends'
        · subst ends'
          simp only [result, result', Guide.follow_ended rest answered unfinished,
            Guide.follow_ended rest answered' unfinished]
          refine ⟨no_fault, ?_, ?_⟩
          · rw [findings', findings, cut'.findings]
          · rw [exceeded', findings, cut'.exceeded]
        · rintro _ ⟨⟩
      · exact absurd ends (faultless' cause)

/-- A malformed node ends every tour that enters it, and changes nothing. -/
theorem flawed_answer {event : Event}
    (flawed : ¬ (event.phase = .entering → event.node.flaw? = none)) :
    ∃ cause, ∀ guide : Guide (Party Inspection × Inspection), ∀ state,
      guide.answer state event = (state, .fault cause) := by
  obtain ⟨entering, malformed⟩ := Classical.not_imp.mp flawed
  rcases event with ⟨_, node⟩
  cases entering
  cases same : node.flaw? with
  | none => exact absurd same malformed
  | some flaw =>
      refine ⟨.malformed node.position flaw, fun guide state => ?_⟩
      simp only [Guide.answer, same]

theorem Cut.findings_within (cut : Cut limit whole short) (within : short.exceeded = false) :
    whole.findings = short.findings := by
  have fits : ¬ limit < whole.findings.length := of_decide_eq_false (cut.exceeded.symm.trans within)
  rw [cut.findings, List.take_of_length_le (Nat.not_lt.mp fits)]

/-- An inspection that never exceeds its limit is the same as one without a limit. -/
theorem Cut.follow_within (events : List Event) (depth : Nat)
    (attendees : List (Attendee View Finding)) (cut : Cut limit whole short) :
    let result := (tracked Party.guide).follow (board.party depth attendees, whole) events
    let result' := (tracked Party.guide).follow (board.party depth attendees, short) events
    result'.1.2.exceeded = false →
      result.2 = result'.2 ∧ result.1.2.findings = result'.1.2.findings := by
  induction events generalizing depth attendees whole short with
  | nil => exact fun within => ⟨rfl, cut.findings_within within⟩
  | cons event rest ih =>
      intro result result' within
      by_cases sound : event.phase = .entering → event.node.flaw? = none
      · obtain ⟨turn, whole', short', cut', told, told'⟩ := cut_answer sound depth attendees cut
        rcases answered : (tracked Party.guide).answer (board.party depth attendees, whole) event
          with ⟨after, ending⟩
        rcases answered' : (tracked Party.guide).answer (board.party depth attendees, short) event
          with ⟨after', ending'⟩
        rw [answered] at told
        rw [answered'] at told'
        obtain ⟨ends, findings, _, next⟩ := told
        obtain ⟨ends', findings', exceeded', next'⟩ := told'
        rw [halted_within cut'.unexceeded] at ends
        dsimp only at ends ends' findings findings' exceeded' next next'
        by_cases exceeds : short'.exceeded = true
        · -- The limit ends the tour here, so it would be exceeded at the end of it too.
          have unfinished : ending' ≠ .finished := ends' ▸ halted_beyond exceeds turn.ending
          simp only [result', Guide.follow_ended rest answered' unfinished] at within
          have under : short'.exceeded = false := exceeded'.symm.trans within
          rw [exceeds] at under
          cases under
        · have under : short'.exceeded = false := Bool.eq_false_iff.mpr exceeds
          rw [halted_within under] at ends'
          by_cases goes : turn.ending = .finished
          · rw [goes] at ends ends'
            subst ends ends'
            simp only [result', Guide.follow_continued rest answered', next' goes] at within
            simp only [result, result', Guide.follow_continued rest answered,
              Guide.follow_continued rest answered', next goes, next' goes]
            exact ih _ _ (cut'.beyond event) within
          · simp only [result, result', Guide.follow_ended rest answered (ends ▸ goes),
              Guide.follow_ended rest answered' (ends' ▸ goes)]
            refine ⟨ends.trans ends'.symm, ?_⟩
            rw [findings, findings', cut'.findings_within under]
      · obtain ⟨cause, faults⟩ := flawed_answer sound
        have unfinished : Ending.fault cause ≠ .finished := nofun
        simp only [result, result', Guide.follow_ended rest (faults _ _) unfinished,
          true_and] at within ⊢
        exact cut.findings_within within

end Following
end Inspection

section Limit
open Inspection Attendee

variable {schema : Schema} {document : Document} {rules : List Rule}

theorem outcome_nil_iff (inspection : Inspection) :
    inspection.outcome = [] ↔ inspection.exceeded = false ∧ inspection.findings = [] := by
  rw [outcome]
  cases inspection.exceeded with
  | true => simp
  | false => simp

theorem start_cut (schema : Schema) (document : Document) (limit : Nat) :
    Cut limit (start schema document none) (start schema document (some limit)) :=
  ⟨rfl, rfl, rfl, rfl, List.take_nil.symm, rfl⟩

/-- A limit, even one that leaves room for no finding, does not decide whether there is
one, and hides no fault from a validation that finds nothing. -/
theorem nothing_found_within_iff (impartial : ∀ rule ∈ rules, rule.Impartial)
    (limit? : Option Nat) : validateWithin limit? schema document rules = .ok [] ↔
      validate schema document rules = .ok [] := by
  cases limit? with
  | none => exact Iff.rfl
  | some limit =>
      have cut := start_cut schema document limit
      have grows := follow_grows (Node.document document).events 0 (newcomers rules) _
        cut.unlimited cut.unexceeded
      rw [validate, validate_within_eq, validate_within_eq, tour_of_rules impartial,
        tour_of_rules impartial]
      constructor
      · intro nothing
        obtain ⟨found, faultless'⟩ := returned_ok nothing
        obtain ⟨within, none⟩ := (outcome_nil_iff _).mp found.symm
        obtain ⟨same, findings⟩ :=
          cut.follow_within (Node.document document).events 0 (newcomers rules) within
        have faultless := same.symm ▸ faultless'
        obtain ⟨_, unexceeded⟩ := grows faultless
        refine (returned_faultless _ faultless).trans (congrArg Except.ok ?_)
        exact (outcome_nil_iff _).mpr ⟨unexceeded, findings.trans none⟩
      · intro nothing
        obtain ⟨found, faultless⟩ := returned_ok nothing
        obtain ⟨_, none⟩ := (outcome_nil_iff _).mp found.symm
        obtain ⟨faultless', findings, exceeded⟩ :=
          cut_follow (Node.document document).events 0 (newcomers rules) cut rfl faultless
        rw [none] at findings exceeded
        refine (returned_faultless _ faultless').trans (congrArg Except.ok ?_)
        exact (outcome_nil_iff _).mpr ⟨exceeded, findings.trans List.take_nil⟩

/-- With a limit, a validation returns what fits, and a notice if that is not everything. -/
theorem limit_only_truncates (impartial : ∀ rule ∈ rules, rule.Impartial) (limit : Nat)
    {findings : List Finding}
    (unlimited : validateWithin none schema document rules = .ok findings) :
    validateWithin (some limit) schema document rules =
      .ok (if findings.length ≤ limit then findings
        else findings.take limit ++ [limitNotice]) := by
  have cut : Cut limit (start schema document none) (start schema document (some limit)) :=
    ⟨rfl, rfl, rfl, rfl, List.take_nil.symm, rfl⟩
  have grows := follow_grows (Node.document document).events 0 (newcomers rules) _
    cut.unlimited cut.unexceeded
  have cuts := cut_follow (Node.document document).events 0 (newcomers rules) cut rfl
  rw [validate_within_eq, tour_of_rules impartial] at unlimited ⊢
  obtain ⟨found, faultless⟩ := returned_ok unlimited
  obtain ⟨_, unexceeded⟩ := grows faultless
  obtain ⟨faultless', cutFindings, exceeded⟩ := cuts faultless
  refine (returned_faultless _ faultless').trans (congrArg Except.ok ?_)
  rw [outcome, if_neg (by rw [unexceeded]; exact Bool.false_ne_true)] at found
  rw [outcome, exceeded, cutFindings, ← found]
  by_cases fits : findings.length ≤ limit
  · rw [if_pos fits, decide_eq_false (Nat.not_lt.mpr fits), if_neg Bool.false_ne_true,
      List.take_of_length_le fits]
  · rw [if_neg fits, decide_eq_true (Nat.not_le.mp fits), if_pos rfl]

/-- Two findings at once do not fit a limit of one. -/
theorem limit_only_truncates_two :
    let schema : Schema := ⟨builtinTypes, builtinRules, [], "Query", none, none⟩
    let document : Document := ⟨[.scalar ⟨.start, none, "Date", []⟩]⟩
    let first : Finding := ⟨"first", [], []⟩
    let second : Finding := ⟨"second", [], []⟩
    let rule : Rule := (Visitor.named "eager").entering .document
      fun state inspection _ => ⟨state, inspection.reportAll [first, second], .ok .proceed⟩
    rule.Impartial ∧ validateWithin none schema document [rule] = .ok [first, second] ∧
      validateWithin (some 1) schema document [rule] = .ok [first, limitNotice] := by
  intro schema document first second rule
  have impartial : rule.Impartial :=
    (named_every _).entering _ ⟨fun state _ _ => ⟨state, [first, second], .ok .proceed⟩, rfl⟩
  have unlimited : validateWithin none schema document [rule] = .ok [first, second] := by
    rw [validate_within_eq, Guide.tour, Node.tree_eq]
    simp only [Node.children, document, List.map_cons, List.map_nil, Node.tree_eq (.definition _),
      Node.ofDefinition]
    rfl
  exact ⟨impartial, unlimited, limit_only_truncates (by simpa using impartial) 1 unlimited⟩

end Limit
end GraphQL
