import ConstraintDesk.Decode.Record
import ConstraintDesk.Model.Validity
/-! Models as structured values. Empty lists and absent parts are left out, and come back as such. -/
namespace ConstraintDesk

attribute [local instance (high)] instPowNat

open Decode

namespace Domain

def toJson (d : Domain) : Json := .string d.name

def ofJson : Decoder Domain := choice all name

end Domain

namespace Literal

def toJson : Literal → Json
  | .bool b => .bool b
  | .int i => .ofInt i.toInt
  | .float x => .ofBinary64 x

def ofJson : Decoder Literal
  | .bool b => .ok (.bool b)
  | .number (.int i _ _) =>
    if i < 2 ^ (63 : Nat) then .ok (.int (Int64.ofInt i)) else .ok (.float (Binary64.ofInt i))
  | .number (.float x _) => .ok (.float x)
  | _ => .error (.noVariant "Literal")

end Literal

namespace Bounds

def toJson (b : Bounds) : Json := .object [("min", b.min.toJson), ("max", b.max.toJson)]

def ofJson : Decoder Bounds := fun v => do
  let parts ← Parts.of "Range" ["min", "max"] v
  parts.verify [("min", only Literal.ofJson), ("max", only Literal.ofJson)]
  parts.finish ⟨← parts.required "min" Literal.ofJson, ← parts.required "max" Literal.ofJson⟩

end Bounds

namespace Parameter

def toJson (p : Parameter) : Json :=
  .object [("id", .string p.id), ("type", p.domain.toJson), ("value", p.value.toJson)]

def ofJson : Decoder Parameter := fun v => do
  let parts ← Parts.of "Parameter" ["id", "type", "value"] v
  parts.verify [("id", only text), ("type", only Domain.ofJson), ("value", only Literal.ofJson)]
  parts.finish ⟨← parts.required "id" text, ← parts.required "type" Domain.ofJson,
    ← parts.required "value" Literal.ofJson⟩

end Parameter

namespace Variable

def toJson (v : Variable) : Json :=
  .object ([("id", .string v.id), ("type", v.domain.toJson)]
    ++ (v.range.map fun r => ("range", r.toJson)).toList)

def ofJson : Decoder Variable := fun v => do
  let parts ← Parts.of "Variable" ["id", "type", "range"] v
  parts.verify
    [("id", only text), ("type", only Domain.ofJson), ("range", only (option Bounds.ofJson))]
  parts.finish ⟨← parts.required "id" text, ← parts.required "type" Domain.ofJson,
    ← parts.optional "range" (option Bounds.ofJson) none⟩

end Variable

namespace Constraint

def toJson (c : Constraint) : Json :=
  .object [("id", .string c.id), ("expression", .string c.expression)]

def ofJson : Decoder Constraint := fun v => do
  let parts ← Parts.of "Constraint" ["id", "expression"] v
  parts.verify [("id", only text), ("expression", only text)]
  parts.finish ⟨← parts.required "id" text, ← parts.required "expression" text⟩

end Constraint

namespace GoalKind

def toJson (k : GoalKind) : Json := .string k.name

def ofJson : Decoder GoalKind := choice all name

end GoalKind

namespace Goal

def toJson (g : Goal) : Json :=
  .object (("id", g.kind.toJson) :: (g.expression.map fun e => ("expression", .string e)).toList)

def ofJson : Decoder Goal := fun v => do
  let parts ← Parts.of "Goal" ["id", "expression"] v
  parts.verify [("id", only GoalKind.ofJson), ("expression", only (option text))]
  parts.finish ⟨← parts.required "id" GoalKind.ofJson,
    ← parts.optional "expression" (option text) none⟩

end Goal

namespace Statement

def toJson : Statement → Json
  | .parameters items => .object [("parameters", .array (items.map Parameter.toJson))]
  | .unknowns items => .object [("variables", .array (items.map Variable.toJson))]
  | .constraints items => .object [("constraints", .array (items.map Constraint.toJson))]
  | .goal g => .object [("goal", g.toJson)]

def kinds : List StatementKind := [.parameters, .unknowns, .constraints, .goal]

def ofPayload (kind : StatementKind) (v : Json) : Except Misfit Statement :=
  match kind with
  | .parameters => (list Parameter.ofJson v).map .parameters
  | .unknowns => (list Variable.ofJson v).map .unknowns
  | .constraints => (list Constraint.ofJson v).map .constraints
  | .goal => (Goal.ofJson v).map .goal

def ofJson : Decoder Statement :=
  tagged (kinds.map StatementKind.name) fun name v =>
    match kinds.find? (·.name = name), v with
    | some kind, some v => ofPayload kind v
    | _, _ => .error (.wrongType .bareVariant "newtype variant")

end Statement

namespace Model

def listField {α : Type} (name : String) (toJson : α → Json) (items : List α) :
    List (String × Json) :=
  if items.isEmpty then [] else [(name, .array (items.map toJson))]

def toJson (m : Model) : Json :=
  .object (listField "parameters" Parameter.toJson m.parameters
    ++ listField "variables" Variable.toJson m.unknowns
    ++ listField "constraints" Constraint.toJson m.constraints
    ++ (m.goal.map fun g => ("goal", g.toJson)).toList)

def decode : Decoder Model := fun v => do
  let parts ← Parts.of "CspModel" ["parameters", "variables", "constraints", "goal"] v
  parts.verify
    [("parameters", only (list Parameter.ofJson)), ("variables", only (list Variable.ofJson)),
     ("constraints", only (list Constraint.ofJson)), ("goal", only (option Goal.ofJson))]
  parts.finish ⟨← parts.optional "parameters" (list Parameter.ofJson) [],
    ← parts.optional "variables" (list Variable.ofJson) [],
    ← parts.optional "constraints" (list Constraint.ofJson) [],
    ← parts.optional "goal" (option Goal.ofJson) none⟩

end Model

inductive ModelError where
  | shape (misfit : Misfit)
  | invalid (item : Invalid)
  deriving DecidableEq

def ModelError.message : ModelError → String
  | .shape m => m.message Json.wording
  | .invalid i => i.message

namespace Model

def validate (m : Model) : Except ModelError Model :=
  match m.invalid? with
  | some i => .error (.invalid i)
  | none => .ok m

def ofJson : Json → Except ModelError Model
  | .null => .ok .empty
  | v =>
    match decode v with
    | .error m => .error (.shape m)
    | .ok m => m.validate

end Model
end ConstraintDesk
