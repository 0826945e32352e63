import ConstraintDesk.Desk.Submission
import ConstraintDesk.Proofs.Decode.KeyOrder
import ConstraintDesk.Json.Value

/-! The order of keys in a submitted document. Nothing of it reaches the model, and so nothing of it reaches
the reasoner. -/
namespace ConstraintDesk

open Decode
open Decode.Parts (Checks)

theorem Domain.ignoresOrder : IgnoresOrder Domain.ofJson := .choice

theorem Literal.ignoresOrder : IgnoresOrder Literal.ofJson := fun _ _ same => by cases same <;> rfl

theorem Bounds.ignoresOrder : IgnoresOrder Bounds.ofJson :=
  .record fun same =>
    have each : Checks [("min", only Literal.ofJson), ("max", only Literal.ofJson)] :=
      .cons Literal.ignoresOrder (.cons Literal.ignoresOrder .nil)
    bindAlike (same.verify each) fun _ =>
    bindAlike (same.required Literal.ignoresOrder) fun _ =>
    bindAlike (same.required Literal.ignoresOrder) fun _ => same.finish _

theorem Parameter.ignoresOrder : IgnoresOrder Parameter.ofJson :=
  .record fun same =>
    have each : Checks [("id", only text), ("type", only Domain.ofJson), ("value", only Literal.ofJson)] :=
      .cons .text (.cons Domain.ignoresOrder (.cons Literal.ignoresOrder .nil))
    bindAlike (same.verify each) fun _ =>
    bindAlike (same.required .text) fun _ =>
    bindAlike (same.required Domain.ignoresOrder) fun _ =>
    bindAlike (same.required Literal.ignoresOrder) fun _ => same.finish _

theorem Variable.ignoresOrder : IgnoresOrder Variable.ofJson :=
  .record fun same =>
    have each : Checks
        [("id", only text), ("type", only Domain.ofJson), ("range", only (option Bounds.ofJson))] :=
      .cons .text (.cons Domain.ignoresOrder (.cons Bounds.ignoresOrder.option .nil))
    bindAlike (same.verify each) fun _ =>
    bindAlike (same.required .text) fun _ =>
    bindAlike (same.required Domain.ignoresOrder) fun _ =>
    bindAlike (same.optional Bounds.ignoresOrder.option none) fun _ => same.finish _

theorem Constraint.ignoresOrder : IgnoresOrder Constraint.ofJson :=
  .record fun same =>
    have each : Checks [("id", only text), ("expression", only text)] := .cons .text (.cons .text .nil)
    bindAlike (same.verify each) fun _ =>
    bindAlike (same.required .text) fun _ =>
    bindAlike (same.required .text) fun _ => same.finish _

theorem GoalKind.ignoresOrder : IgnoresOrder GoalKind.ofJson := .choice

theorem Goal.ignoresOrder : IgnoresOrder Goal.ofJson :=
  .record fun same =>
    have each : Checks [("id", only GoalKind.ofJson), ("expression", only (option text))] :=
      .cons GoalKind.ignoresOrder (.cons (.option .text) .nil)
    bindAlike (same.verify each) fun _ =>
    bindAlike (same.required GoalKind.ignoresOrder) fun _ =>
    bindAlike (same.optional (.option .text) none) fun _ => same.finish _

namespace Model

theorem decodeIgnoresOrder : IgnoresOrder Model.decode :=
  .record fun same =>
    have each : Checks
        [("parameters", only (list Parameter.ofJson)), ("variables", only (list Variable.ofJson)),
         ("constraints", only (list Constraint.ofJson)), ("goal", only (option Goal.ofJson))] :=
      .cons Parameter.ignoresOrder.list (.cons Variable.ignoresOrder.list
        (.cons Constraint.ignoresOrder.list (.cons Goal.ignoresOrder.option .nil)))
    bindAlike (same.verify each) fun _ =>
    bindAlike (same.optional Parameter.ignoresOrder.list []) fun _ =>
    bindAlike (same.optional Variable.ignoresOrder.list []) fun _ =>
    bindAlike (same.optional Constraint.ignoresOrder.list []) fun _ =>
    bindAlike (same.optional Goal.ignoresOrder.option none) fun _ => same.finish _

theorem ofJsonThere {v : Json} (there : v ≠ .null) :
    ofJson v = ((decode v).mapError .shape) >>= validate := by
  rw [ofJson.eq_def]
  split
  · exact absurd rfl there
  · split <;> next read => rw [read]; rfl

theorem ofJsonAlike {v w : Json} (same : v.Reordered w) : (ofJson v).toOption = (ofJson w).toOption := by
  by_cases isNull : v = .null
  · subst isNull
    cases same
    rfl
  · have other : w ≠ .null := by
      rintro rfl
      cases same
      exact isNull rfl
    rw [ofJsonThere isNull, ofJsonThere other]
    refine bindAlike ?_ fun _ => rfl
    rw [mapErrorAlike, mapErrorAlike]
    exact decodeIgnoresOrder same

end Model

theorem Submission.intermediateOfValue {s : Submission} (structured : s.dialect ≠ .dummy) {v : Json}
    (read : s.dialect.parse s.content = .ok v) :
    s.intermediate = ((Model.ofJson v).mapError .model).map fun m => String.ofList m.document := by
  have there : s.intermediate = s.model.map fun m => String.ofList m.document := by
    unfold intermediate
    split
    · next dummy => exact absurd dummy structured
    · rfl
  rw [there, model, read]
  rfl

theorem keyOrderIsImmaterial {v w : Json} (same : v.Reordered w) :
    (∀ m : Model, Model.ofJson v = .ok m ↔ Model.ofJson w = .ok m) ∧
    ∀ s t : Submission, s.dialect ≠ .dummy → t.dialect ≠ .dummy →
      s.dialect.parse s.content = .ok v → t.dialect.parse t.content = .ok w →
      ∀ text : String, s.intermediate = .ok text ↔ t.intermediate = .ok text := by
  have models := Model.ofJsonAlike same
  refine ⟨okAlike models, fun s t first second read other => okAlike ?_⟩
  rw [Submission.intermediateOfValue first read, Submission.intermediateOfValue second other]
  apply mapAlike
  rw [mapErrorAlike, mapErrorAlike, models]

def variablesFirst : Submission :=
  ⟨.json, "\x7b\"variables\":[\x7b\"id\":\"x\",\"type\":\"int\"\x7d],\"goal\":\x7b\"id\":\"satisfy\"\x7d\x7d"⟩

def goalFirst : Submission :=
  ⟨.json, "\x7b\"goal\":\x7b\"id\":\"satisfy\"\x7d,\"variables\":[\x7b\"type\":\"int\",\"id\":\"x\"\x7d]\x7d"⟩

def satisfyGoal : Json := .object [("id", .string "satisfy")]

def variablesFirstValue : Json := .object
  [("variables", .array [.object [("id", .string "x"), ("type", .string "int")]]), ("goal", satisfyGoal)]

def goalFirstValue : Json := .object
  [("goal", satisfyGoal), ("variables", .array [.object [("type", .string "int"), ("id", .string "x")]])]

theorem goalAheadOfTheVariables :
    variablesFirst.intermediate = .ok "var int: x;\nsolve satisfy;\n"
      ∧ goalFirst.intermediate = .ok "var int: x;\nsolve satisfy;\n" := by
  have read : variablesFirst.dialect.parse variablesFirst.content = .ok variablesFirstValue :=
    okOfToOption (by decide +kernel)
  have other : goalFirst.dialect.parse goalFirst.content = .ok goalFirstValue := okOfToOption (by decide +kernel)
  have unknown : Json.Reordered (.object [("id", .string "x"), ("type", .string "int")])
      (.object [("type", .string "int"), ("id", .string "x")]) :=
    .object (by decide) (.swap _ _ _) (.cons (.mk _ (.string _)) (.cons (.mk _ (.string _)) .nil))
  have goals : satisfyGoal.Reordered satisfyGoal := .object (by decide) (.refl _) (.cons (.mk _ (.string _)) .nil)
  have same : variablesFirstValue.Reordered goalFirstValue :=
    .object (by decide) (.swap _ _ _) (.cons (.mk _ goals) (.cons (.mk _ (.array (.cons unknown .nil))) .nil))
  have model : Model.ofJson variablesFirstValue = .ok ⟨[], [⟨"x", .int, none⟩], [], some ⟨.satisfy, none⟩⟩ :=
    okOfToOption (by decide +kernel)
  have document : Model.document ⟨[], [⟨"x", .int, none⟩], [], some ⟨.satisfy, none⟩⟩
      = "var int: x;\nsolve satisfy;\n".toList := by decide +kernel
  have written : variablesFirst.intermediate = .ok "var int: x;\nsolve satisfy;\n" := by
    rw [Submission.intermediateOfValue (by decide) read, model, Except.mapError, Except.map, document,
      String.ofList_toList]
  exact ⟨written, ((keyOrderIsImmaterial same).2 variablesFirst goalFirst (by decide) (by decide) read other _).mp written⟩

end ConstraintDesk
