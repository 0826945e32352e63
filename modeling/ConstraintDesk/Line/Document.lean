import ConstraintDesk.Line.Parser
import ConstraintDesk.Model.Basic
import ConstraintDesk.Text.Basic
/-! Documents of statement lines. A statement is written on one line for each item, with expressions
closed up to one line. Reading passes over blank lines and lines with only a comment. -/
namespace ConstraintDesk

def Parameter.line (p : Parameter) : List Char :=
  p.domain.name.toList ++ ": ".toList ++ p.id.toList ++ " = ".toList ++ p.value.textIn p.domain ++ [';']

def Variable.line (v : Variable) : List Char :=
  let type := match v.range, v.domain with
    | none, d | some _, d@.bool => d.name.toList
    | some range, d => range.min.textIn d ++ "..".toList ++ range.max.textIn d
  "var ".toList ++ type ++ ": ".toList ++ v.id.toList ++ [';']

def Constraint.line (c : Constraint) : List Char :=
  "constraint ".toList ++ c.id.toList ++ ": ".toList ++ Text.oneLine c.expression.toList ++ [';']

def Goal.line (g : Goal) : List Char :=
  let objective := match g.expression with
    | none => []
    | some e => ' ' :: Text.oneLine e.toList
  "solve ".toList ++ g.kind.name.toList ++ objective ++ [';']

namespace Statement

def lines : Statement → List (List Char)
  | .parameters items => items.map Parameter.line
  | .unknowns items => items.map Variable.line
  | .constraints items => items.map Constraint.line
  | .goal g => [g.line]

def text (s : Statement) : List Char := ['\n'].intercalate s.lines

end Statement

def Model.document (m : Model) : List Char := m.statements.flatMap fun s => s.text ++ ['\n']

end ConstraintDesk

namespace ConstraintDesk.Line

def isBlankLine (line : List Char) : Bool :=
  match Text.trimStart line with
  | [] => true
  | c :: _ => c = '%'

def addLine (m : Model) (line : List Char) (index : Nat) : Except SyntaxError Model :=
  if isBlankLine line then .ok m
  else match parse line with
    | .ok s => .ok (m.push s)
    | .error e => .error (e.down index)

def addLines (m : Model) (index : Nat) : List (List Char) → Except SyntaxError Model
  | [] => .ok m
  | line :: rest =>
    match addLine m line index with
    | .ok m => addLines m (index + 1) rest
    | .error e => .error e

def parseDocument (cs : List Char) : Except SyntaxError Model := addLines .empty 0 (Text.lines cs)

end ConstraintDesk.Line
