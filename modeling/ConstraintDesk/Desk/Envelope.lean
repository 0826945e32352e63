import ConstraintDesk.Decode.Record
import ConstraintDesk.Text.Basic
/-! What a request is answered with: a status, and as the status allows a message, data, and
annotations. Annotations always point into the document that was sent. -/
namespace ConstraintDesk

open Decode

inductive Severity where
  | error
  | warning
  deriving DecidableEq, Repr

def Severity.name : Severity → String
  | .error => "error"
  | .warning => "warning"

def Severity.all : List Severity := [.error, .warning]

structure Annotation where
  severity : Severity
  row : Nat
  column : Nat
  text : String
  deriving DecidableEq, Repr

namespace Annotation

def error (row column : Nat) (text : String) : Annotation := ⟨.error, row, column, text⟩

def warning (row column : Nat) (text : String) : Annotation := ⟨.warning, row, column, text⟩

def errorAt (mark : Mark) (text : String) : Annotation := error mark.line mark.column text

def toJson (a : Annotation) : Json :=
  .object [("type", .string a.severity.name), ("row", .ofNat a.row), ("column", .ofNat a.column),
    ("text", .string a.text)]

def ofJson : Decoder Annotation := fun v => do
  let severity := choice Severity.all Severity.name
  let parts ← Parts.of "Annotation" ["type", "row", "column", "text"] v
  parts.verify [("type", only severity), ("row", only (natural "usize")),
    ("column", only (natural "usize")), ("text", only Decode.text)]
  parts.finish ⟨← parts.required "type" severity, ← parts.required "row" (natural "usize"),
    ← parts.required "column" (natural "usize"), ← parts.required "text" Decode.text⟩

end Annotation

inductive Status where
  | ok
  | okProblems
  | error
  deriving DecidableEq, Repr

def Status.name : Status → String
  | .ok => "OK"
  | .okProblems => "OK_PROBLEMS"
  | .error => "ERROR"

def Status.all : List Status := [.ok, .okProblems, .error]

structure Envelope where
  status : Status
  message : Option String
  data : Option Json
  annotations : Option (List Annotation)

namespace Envelope

def ok : Envelope := ⟨.ok, none, none, none⟩

def okWith (message : String) (data : Option Json) : Envelope := ⟨.ok, some message, data, some []⟩

def problems (annotations : List Annotation) : Envelope :=
  ⟨.okProblems, none, none, some annotations⟩

def error (message : String) : Envelope := ⟨.error, some message, none, some []⟩

def isOk (e : Envelope) : Bool := e.status = .ok

def annotationList (e : Envelope) : List Annotation := e.annotations.getD []

def toJson (e : Envelope) : Json :=
  .object [("status", .string e.status.name), ("message", .ofOption .string e.message),
    ("data", .ofOption id e.data),
    ("annotations", .ofOption (fun items => .array (items.map Annotation.toJson)) e.annotations)]

def anyData : Decoder (Option Json) := option .ok

def ofJson : Decoder Envelope := fun v => do
  let status := choice Status.all Status.name
  let message := option Decode.text
  let annotations := option (list Annotation.ofJson)
  let parts ← Parts.of "ResponseEnvelope" ["status", "message", "data", "annotations"] v
  parts.verify [("status", only status), ("message", only message), ("data", only anyData),
    ("annotations", only annotations)]
  let s ← parts.required "status" status
  parts.finish ⟨s, ← parts.nullable "message" message, ← parts.nullable "data" anyData,
    ← parts.nullable "annotations" annotations⟩

end Envelope
end ConstraintDesk
