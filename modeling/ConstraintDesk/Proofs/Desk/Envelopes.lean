import ConstraintDesk.Proofs.Desk.Agreement
import ConstraintDesk.Proofs.Desk.Remapping
import ConstraintDesk.Proofs.Desk.Sessions

/-! What a client can rely on in an answer. A status goes with what it needs and with nothing else, and
problems are never an empty list, since a failed run always has an annotation. -/
namespace ConstraintDesk

structure Envelope.WellFormed (e : Envelope) : Prop where
  problems : e.status = .okProblems →
    e.annotationList ≠ [] ∧ (∀ a ∈ e.annotationList, a.severity = .error) ∧ e.message = none ∧ e.data = none
  ok : e.status = .ok → e.annotationList = [] ∧ (e.data ≠ none → e.message ≠ none)
  error : e.status = .error → e.message ≠ none ∧ e.data = none ∧ e.annotationList = []

namespace Envelope

theorem okWellFormed : ok.WellFormed :=
  ⟨nofun, fun _ => ⟨rfl, fun data => absurd rfl data⟩, nofun⟩

theorem okWithWellFormed (message : String) (data : Option Json) : (okWith message data).WellFormed :=
  ⟨nofun, fun _ => ⟨rfl, fun _ => Option.some_ne_none message⟩, nofun⟩

theorem errorWellFormed (message : String) : (error message).WellFormed :=
  ⟨nofun, nofun, fun _ => ⟨Option.some_ne_none message, rfl, rfl⟩⟩

theorem problemsWellFormed {annotations : List Annotation} (nonempty : annotations ≠ [])
    (errors : ∀ a ∈ annotations, a.severity = .error) : (problems annotations).WellFormed :=
  ⟨fun _ => ⟨nonempty, errors, rfl, rfl⟩, nofun, nofun⟩

end Envelope

namespace Submission

theorem annotationIsError {s : Submission} {intermediate : String} {message : List Char} {a : Annotation}
    (found : s.annotation? intermediate message = some a) : a.severity = .error := by
  by_cases lines : s.dialect = .dummy
  · rw [annotationOfLines lines] at found
    obtain ⟨k, -, rfl⟩ := Option.map_eq_some_iff.mp found
    rfl
  · rw [annotationOfValues lines] at found
    obtain ⟨k, -, located⟩ := Option.bind_eq_some_iff.mp found
    obtain ⟨row, -, rfl⟩ := Option.map_eq_some_iff.mp located
    rfl

theorem remapsSome (s : Submission) (intermediate : String) (o : Outcome) : s.remapErrors intermediate o ≠ [] := by
  unfold remapErrors
  simp only
  split
  · simp
  · next filled => simpa using filled

theorem remapsErrors (s : Submission) (intermediate : String) (o : Outcome) :
    ∀ a ∈ s.remapErrors intermediate o, a.severity = .error := by
  intro a member
  rcases remapCases s intermediate o with fallback | located
  · rw [fallback] at member
    rw [List.mem_singleton.mp member]
    rfl
  · rw [located] at member
    obtain ⟨message, -, found⟩ := List.mem_filterMap.mp member
    exact annotationIsError found

end Submission

namespace Operations

theorem refusalWellFormed (doing : String) (e : DocumentError) : (refusal doing e).WellFormed := by
  cases e with
  | malformed e =>
    refine Envelope.problemsWellFormed (by simp) fun a member => ?_
    rw [List.mem_singleton.mp member]
    rfl
  | model e => exact Envelope.errorWellFormed _
  | unknownDialect name => exact Envelope.errorWellFormed _

theorem checkWellFormed (dialect content : String) : (check dialect content).WellFormed := by
  unfold check
  split
  · exact Envelope.okWellFormed
  · split
    · exact Envelope.errorWellFormed _
    · split
      · exact Envelope.okWellFormed
      · exact refusalWellFormed _ _

theorem checkedWellFormed (s : Submission) (text : String) (o : Outcome) : (checked s text o).WellFormed := by
  unfold checked
  split
  · exact Envelope.problemsWellFormed (s.remapsSome text o) (s.remapsErrors text o)
  · exact Envelope.okWellFormed

end Operations

theorem Conversion.answerWellFormed (source destination content : String) :
    (answer source destination content).WellFormed := by
  unfold answer
  split
  · exact Envelope.okWithWellFormed _ _
  · split
    · exact Envelope.errorWellFormed _
    · exact Envelope.errorWellFormed _
    · split
      · split
        · exact Envelope.okWithWellFormed _ _
        · exact Envelope.errorWellFormed _
      · exact Envelope.errorWellFormed _

namespace Call

variable {o : Outcome}

theorem envelopeOfConsistency (dialect content : String) :
    ∃ e, (Call.consistency dialect content).given o = .envelope e ∧ e.WellFormed := by
  cases Operations.wayOf dialect content with
  | nothing => exact ⟨_, rfl, Envelope.okWellFormed⟩
  | unknown filled unknown =>
    rw [given, answerOfConsistency, Operations.consistencyOfUnknown _ filled unknown]
    exact ⟨_, rfl, Envelope.errorWellFormed _⟩
  | refused filled refused =>
    rw [given, answerOfConsistency, Operations.consistencyOfRefused _ filled refused]
    exact ⟨_, rfl, Operations.refusalWellFormed _ _⟩
  | submitted filled made => exact ⟨_, givenOfConsistency filled made o, Operations.checkedWellFormed _ _ _⟩

theorem solvedWellFormed {content text : String} {format : ExecuteFormat} {e : Envelope}
    (answered : Operations.solved content text format o = .envelope e) : e.WellFormed := by
  unfold Operations.solved at answered
  split at answered
  · cases answered
  · cases answered
    exact ⟨nofun, fun _ => ⟨rfl, fun _ => Option.some_ne_none _⟩, nofun⟩

theorem reportOfSolved {content text : String} {format : ExecuteFormat} {r : Report} :
    Operations.solved content text format o = .report r ↔ (o.isError = true ∨ format = .json) ∧ r = ⟨o, text⟩ := by
  unfold Operations.solved
  split
  · next due =>
    have due : o.isError = true ∨ format = .json := by simpa using due
    exact ⟨fun same => ⟨due, (Response.report.inj same).symm⟩, fun ⟨_, same⟩ => congrArg Response.report same.symm⟩
  · next silent =>
    have silent : ¬ (o.isError = true ∨ format = .json) := by simpa using silent
    exact ⟨nofun, fun ⟨due, _⟩ => absurd due silent⟩

theorem givenOfRefused {content : String} {x : DocumentError}
    (refused : (Submission.mk .yaml content).intermediate = .error x) (format : ExecuteFormat) :
    (Call.execute content format).given o = .envelope (Operations.refusal "executing" x) := by
  rw [given, answer, Operations.executeRefused _ refused]
  rfl

theorem givenWellFormed {c : Call} {e : Envelope} (answered : c.given o = .envelope e) : e.WellFormed := by
  cases c with
  | check dialect content =>
    cases answered
    exact Operations.checkWellFormed dialect content
  | convert source destination content =>
    cases answered
    exact Conversion.answerWellFormed source destination content
  | consistency dialect content =>
    obtain ⟨x, same, wellFormed⟩ := envelopeOfConsistency (o := o) dialect content
    exact Response.envelope.inj (answered.symm.trans same) ▸ wellFormed
  | execute content format =>
    generalize intermediate : (Submission.mk .yaml content).intermediate = made
    cases made with
    | error x =>
      rw [givenOfRefused intermediate] at answered
      cases answered
      exact Operations.refusalWellFormed _ _
    | ok text =>
      rw [givenOfExecute intermediate] at answered
      exact solvedWellFormed answered

theorem reportIff {c : Call} {r : Report} : c.given o = .report r ↔ c.Submits r.document ∧ r.outcome = o
    ∧ ∃ content format, c = .execute content format ∧ (o.isError = true ∨ format = .json) := by
  constructor
  · intro reported
    cases c with
    | check dialect content => cases reported
    | convert source destination content => cases reported
    | consistency dialect content =>
      obtain ⟨x, same, -⟩ := envelopeOfConsistency (o := o) dialect content
      cases reported.symm.trans same
    | execute content format =>
      generalize intermediate : (Submission.mk .yaml content).intermediate = made
      cases made with
      | error x => cases reported.symm.trans (givenOfRefused intermediate format)
      | ok text =>
        rw [givenOfExecute intermediate] at reported
        obtain ⟨due, rfl⟩ := reportOfSolved.mp reported
        exact ⟨.execute format intermediate, rfl, content, format, rfl, due⟩
  · rintro ⟨submits, rfl, content, format, rfl, due⟩
    cases submits with
    | execute format made =>
      rw [givenOfExecute made]
      exact reportOfSolved.mpr ⟨due, rfl⟩

variable (reasoner : List String → Outcome) {c : Call}

def consulted (reasoner : List String → Outcome) (c : Call) : Consultation Response :=
  consult reasoner fun solve => c.answer solve

theorem consultedOfSubmitted {text : String} (submits : c.Submits text) :
    c.consulted reasoner = ⟨c.given (reasoner [text]), [text]⟩ := by
  rw [consulted, consult, answerOfSubmitted _ submits]
  rfl

theorem consultedOfSilent (silent : ∀ text, ¬ c.Submits text) (o : Outcome) :
    c.consulted reasoner = ⟨c.given o, []⟩ := by
  rw [consulted, consult, answerOfSilent _ silent o]
  rfl

theorem answersWellFormed (c : Call) :
    (∀ e, (c.consulted reasoner).answer = .envelope e → e.WellFormed)
      ∧ ∀ r, (c.consulted reasoner).answer = .report r ↔
        (c.consulted reasoner).documents = [r.document] ∧ r.outcome = reasoner [r.document]
          ∧ ∃ content format, c = .execute content format ∧ (r.outcome.isError = true ∨ format = .json) := by
  by_cases submitted : ∃ text, c.Submits text
  · obtain ⟨text, submits⟩ := submitted
    rw [consultedOfSubmitted reasoner submits]
    refine ⟨fun _ => givenWellFormed, fun r => ?_⟩
    rw [reportIff]
    constructor
    · rintro ⟨own, same, content, format, rfl, due⟩
      obtain rfl := Submits.unique submits own
      exact ⟨rfl, same, content, format, rfl, same ▸ due⟩
    · rintro ⟨own, same, content, format, rfl, due⟩
      obtain rfl := List.singleton_inj.mp own
      exact ⟨submits, same, content, format, rfl, same ▸ due⟩
  · have silent : ∀ text, ¬ c.Submits text := fun text submits => submitted ⟨text, submits⟩
    rw [consultedOfSilent reasoner silent (reasoner [])]
    refine ⟨fun _ => givenWellFormed, fun r => ⟨fun reported => ?_, fun ⟨own, _⟩ => ?_⟩⟩
    · exact absurd (reportIff.mp reported).1 (silent _)
    · cases own

end Call
end ConstraintDesk
