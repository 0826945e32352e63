import ConstraintDesk.Desk.Dialect
import ConstraintDesk.Desk.Envelope
import ConstraintDesk.Reasoner.Diagnostics
import ConstraintDesk.Reasoner.Host
/-! A document that was sent in, the text of it that the reasoner is given, and the way back: what the
reasoner says of a line of its text is said of the first line of the document that holds the id of the
statement on that line. A document can also be asked for in another dialect. -/
namespace ConstraintDesk

structure Submission where
  dialect : Dialect
  content : String
  deriving DecidableEq

namespace Submission

def model (s : Submission) : Except DocumentError Model := do
  (Model.ofJson (← s.dialect.parse s.content)).mapError .model

def intermediate (s : Submission) : Except DocumentError String :=
  match s.dialect with
  | .dummy => .ok s.content
  | _ => s.model.map fun m => String.ofList m.document

def rowOf? (id : String) (lines : List (List Char)) : Option Nat :=
  lines.findIdx? (Text.occursIn id.toList)

def locate? (line : Nat) (intermediate submitted : List (List Char)) : Option Nat := do
  let text ← intermediate[line]?
  let statement ← (Line.parse text).toOption
  let id ← statement.id?
  rowOf? id submitted

def annotation? (s : Submission) (intermediate : String) (message : List Char) :
    Option Annotation := do
  let line ← Diagnostics.lineReference? message
  let row ← match s.dialect with
    | .dummy => some line
    | _ => locate? line (Text.lines intermediate.toList) (Text.lines s.content.toList)
  return .error row 0 (String.ofList (Diagnostics.clean message))

def fallbackText (o : Outcome) : String :=
  if !o.stderr.isEmpty then String.ofList (Diagnostics.clean o.stderr.toList)
  else match o.error with
    | some e => String.ofList (Diagnostics.clean e.toList)
    | none => ""

/-- The annotations for a failed run, in the order of its messages; there is at least one. -/
def remapErrors (s : Submission) (intermediate : String) (o : Outcome) : List Annotation :=
  let located := (Diagnostics.blocks o.stderr.toList).filterMap (s.annotation? intermediate)
  if located.isEmpty then [.error 0 0 (fallbackText o)] else located

end Submission
end ConstraintDesk

namespace ConstraintDesk.Conversion

def isSupported (source destination : Dialect) : Bool := source ≠ destination

def convert (source destination : Dialect) (content : String) : Except DocumentError String := do
  destination.serialize (← source.parse content)

def impossible (source destination : String) : Envelope :=
  .error s!"It is not possible to translate from {source} to {destination}"

def answer (source destination content : String) : Envelope :=
  if content.isEmpty then .okWith "Nothing to translate" none
  else match Dialect.ofName source, Dialect.ofName destination with
    | .error _, _ => impossible source destination
    | .ok _, .error _ => impossible Dialect.yaml.name destination
    | .ok s, .ok d =>
      if isSupported s d then
        match convert s d content with
        | .ok text => .okWith "The content has been translated" (some (.string text))
        | .error e => .error s!"Error while translating: {e.message}"
      else impossible Dialect.yaml.name destination

end ConstraintDesk.Conversion
