import ConstraintDesk.Json.Reader
import ConstraintDesk.Line.Document
import ConstraintDesk.Model.Encoding
import ConstraintDesk.Yaml.Printer
import ConstraintDesk.Yaml.Value
/-! The syntaxes in which a model can be written. Two of them hold any structured value; the text of
the third, one statement a line, is a model. -/
namespace ConstraintDesk

inductive Dialect where
  | yaml
  | json
  | dummy
  deriving DecidableEq, Repr

inductive DocumentError where
  | malformed (error : SyntaxError)
  | model (error : ModelError)
  | unknownDialect (name : String)
  deriving DecidableEq

def DocumentError.message : DocumentError → String
  | .malformed e => e.message
  | .model e => e.message
  | .unknownDialect name => s!"Unsupported syntax: {name}"

namespace Dialect

def all : List Dialect := [.yaml, .json, .dummy]

def name : Dialect → String
  | .yaml => "yaml"
  | .json => "json"
  | .dummy => "dummy"

def title : Dialect → String
  | .yaml => "YAML"
  | .json => "JSON"
  | .dummy => "dummy"

def extensions : Dialect → List String
  | .yaml => ["yaml", "yml"]
  | .json => ["json"]
  | .dummy => ["dummy"]

def ofName (s : String) : Except DocumentError Dialect :=
  match all.find? (·.name = s) with
  | some d => .ok d
  | none => .error (.unknownDialect s)

/-- A message without the last place that it gives. -/
def stripPlace (message : String) : String :=
  match Text.beforeLast? " at line ".toList message.toList with
  | some before => String.ofList before
  | none => message

def jsonError (f : Json.Failure) : SyntaxError :=
  ⟨stripPlace f.message, .ofOneBased (f.place.line + 1) f.place.column⟩

def yamlError (e : Yaml.Misreading) : SyntaxError := ⟨stripPlace e.message, e.mark⟩

def parse (d : Dialect) (text : String) : Except DocumentError Json :=
  match d with
  | .yaml => (Yaml.read text.toList).mapError fun e => .malformed (yamlError e)
  | .json => (Json.read text.toList).mapError fun f => .malformed (jsonError f)
  | .dummy => ((Line.parseDocument text.toList).map Model.toJson).mapError .malformed

def serialize (d : Dialect) (v : Json) : Except DocumentError String :=
  match d with
  | .yaml => .ok (Yaml.write v)
  | .json => .ok (Json.pretty 0 v)
  | .dummy => ((Model.ofJson v).map fun m => String.ofList m.document).mapError .model

def check (d : Dialect) (text : String) : Except DocumentError Unit := (d.parse text).map fun _ => ()

end Dialect
end ConstraintDesk
