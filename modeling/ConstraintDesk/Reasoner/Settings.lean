import ConstraintDesk.Decode.Record
import ConstraintDesk.Text.Basic
import ConstraintDesk.Yaml.Record
/-! Which program solves models, and how long it may take. Settings come from a document, and names in
the environment override them. -/
namespace ConstraintDesk

attribute [local instance (high)] instPowNat

structure Settings where
  program : String
  args : List String
  folder : String
  timeoutMs : Option Nat
  deriving DecidableEq, Repr

namespace Settings

def default : Settings := ⟨"dummy", [], "csp_files", none⟩

def withTimeoutMicros (s : Settings) (micros : Nat) : Settings :=
  { s with timeoutMs := some (micros / 1000) }

def timeout (s : Settings) : Option (Nat × Nat) := s.timeoutMs.map fun ms => (ms / 1000, ms % 1000)

def milliseconds? (text : List Char) : Option Nat :=
  let trimmed := Text.trim text
  let digits := if trimmed.head? = some '+' then trimmed.tail else trimmed
  if digits.isEmpty || !digits.all Decimal.isDigit then none
  else
    let n := Decimal.natOf digits
    if n < 2 ^ (64 : Nat) then some n else none

def overriddenBy (s : Settings) (environment : String → Option String) : Settings where
  program := (environment "CSP_REASONER_BIN").getD s.program
  args := s.args
  folder := (environment "CSP_REASONER_FOLDER").getD s.folder
  timeoutMs :=
    ((environment "CSP_REASONER_TIMEOUT_MS").bind fun text => milliseconds? text.toList).or s.timeoutMs

def ofEnvironment (environment : String → Option String) : Settings :=
  default.overriddenBy environment

def toJson (s : Settings) : Json :=
  .object [("program", .string s.program), ("args", .array (s.args.map .string)),
    ("folder", .string s.folder), ("timeoutMs", .ofOption .ofNat s.timeoutMs)]

def title : String := "ReasonerConfig"

def path : Decoder String
  | .string s => .ok s
  | v => Decode.wrongType v "path string"

open Decode in
def ofJson : Decoder Settings := fun v => do
  let args := list Decode.text
  let limit := option (natural "u64")
  let parts ← Parts.of title ["program", "args", "folder", "timeoutMs"] v
  parts.verify [("program", only path), ("args", only args), ("folder", only path),
    ("timeoutMs", only limit)]
  parts.finish ⟨← parts.optional "program" path default.program,
    ← parts.optional "args" args default.args, ← parts.optional "folder" path default.folder,
    ← parts.optional "timeoutMs" limit default.timeoutMs⟩

structure Draft where
  program : Option String
  args : Option (List String)
  folder : Option String
  timeoutMs : Option (Option Nat)

namespace Draft

def empty : Draft := ⟨none, none, none, none⟩

def settings (d : Draft) : Settings :=
  ⟨d.program.getD default.program, d.args.getD default.args, d.folder.getD default.folder,
    d.timeoutMs.getD default.timeoutMs⟩

open Yaml Reader in
def add (nodes : Nat) (place : Place) (outer : Path) (d : Draft) (name : String) (inner : Path) :
    Reader Draft := do
  let once (isSet : Bool) : Reader Unit :=
    if isSet then misfit (.repeatedField name) place outer else return ()
  match name with
  | "program" =>
    once d.program.isSome
    return { d with program := some (← text reach inner "path string") }
  | "args" =>
    once d.args.isSome
    return { d with args := some (← texts nodes inner) }
  | "folder" =>
    once d.folder.isSome
    return { d with folder := some (← text reach inner "path string") }
  | "timeoutMs" =>
    once d.timeoutMs.isSome
    return { d with timeoutMs := some (← naturalOption reach "u64" place outer inner) }
  | _ =>
    skip nodes 0
    return d

end Draft

def ofYaml (text : List Char) : Except Yaml.Misreading Settings := do
  let ns := Yaml.Nodes.ofText text
  let nodes := ns.starts.size + 2
  let reading := Yaml.Reader.record nodes s!"struct {title}" .root Draft.empty (Draft.add nodes)
  let (d, _) ← (reading ns).run ⟨0, 0⟩
  ns.complete
  return d.settings

end Settings
end ConstraintDesk
