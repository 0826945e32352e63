import ConstraintDesk.Desk.Session
import ConstraintDesk.Proofs.Desk.Operations

/-! Requests in a row. A request alone decides whether it comes to the reasoner and with which text; it
comes there once at most, and beyond that its answer depends on nothing but the outcome it gets. -/
namespace ConstraintDesk

namespace Call

inductive Submits : Call → String → Prop
  | consistency {d : Dialect} {content text : String} (filled : content ≠ "")
      (made : (Submission.mk d content).intermediate = .ok text) : Submits (.consistency d.name content) text
  | execute {content text : String} (format : ExecuteFormat)
      (made : (Submission.mk .yaml content).intermediate = .ok text) : Submits (.execute content format) text

def text? : Call → Option String
  | .check _ _ | .convert _ _ _ => none
  | .consistency dialect content =>
    if content.isEmpty then none
    else match Dialect.ofName dialect with
      | .error _ => none
      | .ok d => (Submission.mk d content).intermediate.toOption
  | .execute content _ => (Submission.mk .yaml content).intermediate.toOption

theorem toOptionIff {ε α : Type} {x : Except ε α} {a : α} : x.toOption = some a ↔ x = .ok a := by
  cases x <;> simp [Except.toOption]

theorem textIff {c : Call} {text : String} : c.text? = some text ↔ c.Submits text := by
  constructor
  · intro given
    cases c with
    | check dialect content => cases given
    | convert source destination content => cases given
    | consistency dialect content =>
      simp only [text?] at given
      split at given
      · cases given
      · next filled =>
        split at given
        · cases given
        · next d known =>
          obtain rfl := Dialect.nameOfOfName known
          exact .consistency (by simpa using filled) (toOptionIff.mp given)
    | execute content format => exact .execute format (toOptionIff.mp given)
  · intro submits
    cases submits with
    | consistency filled made =>
      rw [text?, if_neg (by simpa using filled), Dialect.ofNameOfName]
      exact toOptionIff.mpr made
    | execute format made => exact toOptionIff.mpr made

theorem Submits.unique {c : Call} {text other : String} (submits : c.Submits text) (too : c.Submits other) :
    text = other := Option.some.inj ((textIff.mpr submits).symm.trans (textIff.mpr too))

def given (c : Call) (o : Outcome) : Response := (c.answer fun _ => (pure o : Id Outcome)).run

variable {m : Type → Type} [Monad m] [LawfulMonad m] (solve : String → m Outcome)

theorem answerOfConsistency (dialect content : String) : (Call.consistency dialect content).answer solve
    = Response.envelope <$> Operations.checkConsistency solve dialect content := (map_eq_pure_bind _ _).symm

theorem givenOfConsistency {d : Dialect} {content text : String} (filled : content ≠ "")
    (made : (Submission.mk d content).intermediate = .ok text) (o : Outcome) :
    (Call.consistency d.name content).given o = .envelope (Operations.checked ⟨d, content⟩ text o) := by
  rw [given, answerOfConsistency, Operations.consistencyOfText _ filled made]
  rfl

theorem givenOfExecute {content text : String} (made : (Submission.mk .yaml content).intermediate = .ok text)
    (format : ExecuteFormat) (o : Outcome) :
    (Call.execute content format).given o = Operations.solved content text format o := by
  rw [given, answer, Operations.executeText _ made]
  rfl

theorem answerOfSubmitted {c : Call} {text : String} (submits : c.Submits text) :
    c.answer solve = c.given <$> solve text := by
  cases submits with
  | consistency filled made =>
    rw [answerOfConsistency, Operations.consistencyOfText solve filled made, ← comp_map]
    exact congrArg (· <$> solve text) (funext fun o => (givenOfConsistency filled made o).symm)
  | execute format made =>
    rw [answer, Operations.executeText solve made]
    exact congrArg (· <$> solve text) (funext fun o => (givenOfExecute made format o).symm)

theorem answerOfSilent {c : Call} (silent : ∀ text, ¬ c.Submits text) (o : Outcome) :
    c.answer solve = pure (c.given o) := by
  cases c with
  | check dialect content => rfl
  | convert source destination content => rfl
  | consistency dialect content =>
    rw [given, answerOfConsistency, answerOfConsistency]
    cases Operations.wayOf dialect content with
    | nothing => exact map_pure _ _
    | unknown filled unknown =>
      rw [Operations.consistencyOfUnknown _ filled unknown, Operations.consistencyOfUnknown _ filled unknown, map_pure]
      rfl
    | refused filled refused =>
      rw [Operations.consistencyOfRefused _ filled refused, Operations.consistencyOfRefused _ filled refused, map_pure]
      rfl
    | submitted filled made => exact absurd (.consistency filled made) (silent _)
  | execute content format =>
    generalize intermediate : (Submission.mk .yaml content).intermediate = made
    cases made with
    | ok text => exact absurd (.execute format intermediate) (silent text)
    | error e =>
      rw [given, answer, answer, Operations.executeRefused _ intermediate, Operations.executeRefused _ intermediate]
      rfl

theorem givenOfSilent {c : Call} (silent : ∀ text, ¬ c.Submits text) (o o' : Outcome) : c.given o = c.given o' :=
  congrArg Id.run (answerOfSilent (fun _ => (pure o : Id Outcome)) silent o')

end Call

namespace Session

open Replay (outcomeAt)

def texts (calls : List Call) : List String := calls.filterMap Call.text?

theorem answerStep (r : Replay) (c : Call) : (c.answer Replay.solve).run r
    = (c.given (outcomeAt r.outcomes r.documents.length), { r with documents := r.documents ++ c.text?.toList }) := by
  cases found : c.text? with
  | some text =>
    rw [Call.answerOfSubmitted Replay.solve (Call.textIff.mp found), StateT.run_map]
    rfl
  | none =>
    have silent : ∀ text, ¬ c.Submits text := fun text submits => by
      rw [Call.textIff.mpr submits] at found
      cases found
    rw [Call.answerOfSilent Replay.solve silent (outcomeAt r.outcomes r.documents.length)]
    simp only [Option.toList_none, List.append_nil]
    rfl

theorem runCons (r : Replay) (c : Call) (rest : List Call) : run r (c :: rest)
    = ⟨c.given (outcomeAt r.outcomes r.documents.length), r.documents ++ texts [c]⟩
      :: run { r with documents := r.documents ++ texts [c] } rest := by
  have own : texts [c] = c.text?.toList := by
    cases found : c.text? <;> simp [texts, found]
  rw [run, answerStep, own]

theorem textsAppend (before after : List Call) : texts (before ++ after) = texts before ++ texts after :=
  List.filterMap_append

theorem runLength (r : Replay) (calls : List Call) : (run r calls).length = calls.length := by
  induction calls generalizing r with
  | nil => rfl
  | cons c rest ih => rw [runCons, List.length_cons, List.length_cons, ih]

theorem runAt (r : Replay) (before : List Call) (c : Call) (after : List Call) :
    (run r (before ++ c :: after))[before.length]?
      = some ⟨c.given (outcomeAt r.outcomes (r.documents ++ texts before).length),
          r.documents ++ texts before ++ texts [c]⟩ := by
  induction before generalizing r with
  | nil => simp [runCons, texts]
  | cons b before ih =>
    rw [List.cons_append, runCons, List.length_cons, List.getElem?_cons_succ, ih]
    simp only [List.append_assoc, ← textsAppend, List.cons_append, List.nil_append]

structure Accounts (outcomes : List Outcome) (before : List Call) (c : Call) (e : Entry) : Prop where
  documents : e.documents = texts (before ++ [c])
  submitted : ∀ text, c.Submits text → e.documents = texts before ++ [text]
  silent : (∀ text, ¬ c.Submits text) → e.documents = texts before ∧ ∀ o, e.response = c.given o
  response : e.response = c.given (outcomeAt outcomes (texts before).length)
  check : ∀ dialect content, c = .check dialect content →
    e.response = .envelope (Operations.check dialect content)
  conversion : ∀ source destination content, c = .convert source destination content →
    e.response = .envelope (Conversion.answer source destination content)

/-- In every session a request adds its text, if it has one for the reasoner, to those that the reasoner was
given before. Its answer follows from the request and the outcome whose turn it is, and without a text from
the request alone. -/
theorem everyCallAccountedFor (outcomes : List Outcome) (before : List Call) (c : Call) (after : List Call) :
    (∀ (asked : Call) (text : String), asked.text? = some text ↔ asked.Submits text)
      ∧ (run ⟨outcomes, []⟩ (before ++ c :: after)).length = (before ++ c :: after).length
      ∧ ∃ e, (run ⟨outcomes, []⟩ (before ++ c :: after))[before.length]? = some e
        ∧ Accounts outcomes before c e := by
  refine ⟨fun _ _ => Call.textIff, runLength _ _, _, runAt ⟨outcomes, []⟩ before c after, ?_⟩
  constructor
  · rw [textsAppend]
    rfl
  · intro text submits
    simp [texts, Call.textIff.mpr submits]
  · intro silent
    have nothing : c.text? = none := Option.eq_none_iff_forall_ne_some.mpr fun text found =>
      silent text (Call.textIff.mp found)
    exact ⟨by simp [texts, nothing], Call.givenOfSilent silent _⟩
  · rfl
  · rintro dialect content rfl
    rfl
  · rintro source destination content rfl
    rfl

example : (run ⟨[.failure "failed" ""], []⟩ [.consistency "dummy" "x", .check "dummy" "x", .consistency "" "x",
    .consistency "dummy" "y"]).map Entry.documents = [["x"], ["x"], ["x"], ["x", "y"]] := by decide +kernel

end Session
end ConstraintDesk
