import ConstraintDesk.Decimal.Shortest
/-! Constraint models: named constants, named unknowns with their bounds, named conditions, and a
goal. A statement is a part of a model that stands on its own. -/
namespace ConstraintDesk

inductive Domain where
  | int
  | float
  | bool
  deriving DecidableEq, Repr

def Domain.name : Domain → String
  | .int => "int"
  | .float => "float"
  | .bool => "bool"

def Domain.all : List Domain := [.int, .float, .bool]

inductive Literal where
  | bool (value : Bool)
  | int (value : Int64)
  | float (value : Binary64)
  deriving DecidableEq

namespace Literal

def spelling : Spelling := ⟨-4, 15, false, true⟩

def text : Literal → List Char
  | .bool b => (if b then "true" else "false").toList
  | .int i => Spelling.intDigits i.toInt
  | .float x => spelling.write x

/-- The text in a declaration: an integer of a float domain keeps a decimal point. -/
def textIn (domain : Domain) (l : Literal) : List Char :=
  match l, domain with
  | .int i, .float => Spelling.intDigits i.toInt ++ ".0".toList
  | l, _ => l.text

def fits (domain : Domain) : Literal → Bool
  | .bool _ => domain = .bool
  | .int _ => domain = .int || domain = .float
  | .float _ => domain = .float

end Literal

structure Bounds where
  min : Literal
  max : Literal
  deriving DecidableEq

structure Parameter where
  id : String
  domain : Domain
  value : Literal
  deriving DecidableEq

structure Variable where
  id : String
  domain : Domain
  range : Option Bounds
  deriving DecidableEq

structure Constraint where
  id : String
  expression : String
  deriving DecidableEq

inductive GoalKind where
  | satisfy
  | minimize
  | maximize
  deriving DecidableEq, Repr

def GoalKind.name : GoalKind → String
  | .satisfy => "satisfy"
  | .minimize => "minimize"
  | .maximize => "maximize"

def GoalKind.all : List GoalKind := [.satisfy, .minimize, .maximize]

structure Goal where
  kind : GoalKind
  expression : Option String
  deriving DecidableEq

inductive Statement where
  | parameters (items : List Parameter)
  | unknowns (items : List Variable)
  | constraints (items : List Constraint)
  | goal (goal : Goal)
  deriving DecidableEq

inductive StatementKind where
  | parameters
  | unknowns
  | constraints
  | goal
  deriving DecidableEq, Repr

def StatementKind.name : StatementKind → String
  | .parameters => "parameters"
  | .unknowns => "variables"
  | .constraints => "constraints"
  | .goal => "goal"

namespace Statement

def kind : Statement → StatementKind
  | .parameters _ => .parameters
  | .unknowns _ => .unknowns
  | .constraints _ => .constraints
  | .goal _ => .goal

def id? : Statement → Option String
  | .parameters items => items.head?.map (·.id)
  | .unknowns items => items.head?.map (·.id)
  | .constraints items => items.head?.map (·.id)
  | .goal g => some g.kind.name

end Statement

structure Model where
  parameters : List Parameter
  unknowns : List Variable
  constraints : List Constraint
  goal : Option Goal
  deriving DecidableEq

namespace Model

def empty : Model := ⟨[], [], [], none⟩

def isEmpty (m : Model) : Bool :=
  m.parameters.isEmpty && m.unknowns.isEmpty && m.constraints.isEmpty && m.goal.isNone

def push (m : Model) : Statement → Model
  | .parameters items => { m with parameters := m.parameters ++ items }
  | .unknowns items => { m with unknowns := m.unknowns ++ items }
  | .constraints items => { m with constraints := m.constraints ++ items }
  | .goal g => { m with goal := some g }

def statements (m : Model) : List Statement :=
  m.parameters.map (fun p => .parameters [p]) ++ m.unknowns.map (fun v => .unknowns [v])
    ++ m.constraints.map (fun c => .constraints [c]) ++ m.goal.toList.map .goal

end Model
end ConstraintDesk
