import ConstraintDesk.Model.Basic
import ConstraintDesk.Text.Basic
/-! Which models can be written line by line and read back. -/
namespace ConstraintDesk

inductive Flaw where
  | emptyId
  | splitId
  | wrongValue (value : Literal) (domain : Domain)
  | boolRange
  | wrongRange (range : Bounds) (domain : Domain)
  | emptyExpression
  | percentInExpression
  | expressionOfSatisfy
  | noExpression (kind : GoalKind)
  deriving DecidableEq

def Flaw.message : Flaw → String
  | .emptyId => "id is empty"
  | .splitId => "id must not contain whitespace, ':', ';', '=', '%' or '\"'"
  | .wrongValue value domain => s!"value {String.ofList value.text} is not {domain.name}"
  | .boolRange => "bool variables take no range"
  | .wrongRange range domain =>
    s!"range {String.ofList range.min.text}..{String.ofList range.max.text} does not fit type {domain.name}"
  | .emptyExpression => "expression is empty"
  | .percentInExpression => "expression must not contain '%'"
  | .expressionOfSatisfy => "satisfy takes no expression"
  | .noExpression kind => s!"{kind.name} needs an expression"

structure Invalid where
  item : String
  id : String
  flaw : Flaw
  deriving DecidableEq

def Invalid.message (e : Invalid) : String := s!"{e.item} '{e.id}': {e.flaw.message}"

def isReserved (c : Char) : Bool := c = ':' || c = ';' || c = '=' || c = '%' || c = '"'

def idFlaw? (id : String) : Option Flaw :=
  if id.toList.isEmpty then some .emptyId
  else if id.toList.any fun c => Text.isBlank c || isReserved c then some .splitId
  else none

def expressionFlaw? (expression : String) : Option Flaw :=
  if (Text.trim expression.toList).isEmpty then some .emptyExpression
  else if expression.toList.contains '%' then some .percentInExpression
  else none

def Bounds.flaw? (domain : Domain) (range : Bounds) : Option Flaw :=
  if domain = .bool then some .boolRange
  else if range.min.fits domain && range.max.fits domain then none
  else some (.wrongRange range domain)

def Parameter.flaw? (p : Parameter) : Option Flaw :=
  (idFlaw? p.id).or (if p.value.fits p.domain then none else some (.wrongValue p.value p.domain))

def Variable.flaw? (v : Variable) : Option Flaw :=
  (idFlaw? v.id).or (v.range.bind (Bounds.flaw? v.domain))

def Constraint.flaw? (c : Constraint) : Option Flaw :=
  (idFlaw? c.id).or (expressionFlaw? c.expression)

def Goal.flaw? (g : Goal) : Option Flaw :=
  match g.kind, g.expression with
  | .satisfy, none => none
  | .satisfy, some _ => some .expressionOfSatisfy
  | _, some expression => expressionFlaw? expression
  | kind, none => some (.noExpression kind)

namespace Model

def invalid? (m : Model) : Option Invalid :=
  (m.parameters.findSome? fun p => p.flaw?.map (Invalid.mk "parameter" p.id))
    |>.or (m.unknowns.findSome? fun v => v.flaw?.map (Invalid.mk "variable" v.id))
    |>.or (m.constraints.findSome? fun c => c.flaw?.map (Invalid.mk "constraint" c.id))
    |>.or (m.goal.bind fun g => g.flaw?.map (Invalid.mk "goal" g.kind.name))

end Model
end ConstraintDesk
