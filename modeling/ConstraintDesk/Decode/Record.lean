import ConstraintDesk.Decimal.Shortest
import ConstraintDesk.Json.Value
import ConstraintDesk.Text.Quoted
/-! Reading typed data from structured values. A record is an object, whose other keys do not matter, or
an array of its fields in their order. Of several wrong fields the first in the document counts, and a
missing one only when none is wrong. What is said of a value that is not the expected one depends on the
kind of document that it comes from. -/
namespace ConstraintDesk

inductive Found where
  | null
  | bool (value : Bool)
  | int (value : Int)
  | hugeInt (value : Int)
  | float (value : Binary64)
  | notANumber
  | string (value : String)
  | sequence
  | map
  | taggedValue
  | bareVariant
  deriving DecidableEq

inductive Misfit where
  | wrongType (found : Found) (expected : String)
  | wrongValue (found : Found) (expected : String)
  | wrongLength (count : Nat) (expected : String)
  | missingField (name : String)
  | repeatedField (name : String)
  | unknownVariant (name : String) (known : List String)
  | noVariant (type : String)
  | hugeNumber
  deriving DecidableEq

structure Wording where
  null : String
  float : Binary64 → String

def Found.text (w : Wording) : Found → String
  | .null => w.null
  | .bool b => s!"boolean `{b}`"
  | .int i => s!"integer `{i}`"
  | .hugeInt i => s!"integer `{i}` as " ++ (if i < 0 then "i128" else "u128")
  | .float x => s!"floating point `" ++ w.float x ++ "`"
  | .notANumber => "floating point `NaN.0`"
  | .string s => "string " ++ Text.quoted s
  | .sequence => "sequence"
  | .map => "map"
  | .taggedValue => "enum"
  | .bareVariant => "unit variant"

def oneOf : List String → String
  | [] => "there are no variants"
  | [a] => s!"expected `{a}`"
  | [a, b] => s!"expected `{a}` or `{b}`"
  | names => "expected one of " ++ ", ".intercalate (names.map fun n => s!"`{n}`")

def Misfit.message (w : Wording) : Misfit → String
  | .wrongType found expected => s!"invalid type: {found.text w}, expected {expected}"
  | .wrongValue found expected => s!"invalid value: {found.text w}, expected {expected}"
  | .wrongLength count expected => s!"invalid length {count}, expected {expected}"
  | .missingField name => s!"missing field `{name}`"
  | .repeatedField name => s!"duplicate field `{name}`"
  | .unknownVariant name known => s!"unknown variant `{name}`, {oneOf known}"
  | .noVariant type => s!"data did not match any variant of untagged enum {type}"
  | .hugeNumber => "JSON number out of range"

abbrev Decoder (α : Type) := Json → Except Misfit α

def Json.wording : Wording where
  null := "null"
  float x := String.ofList (Json.spelling.write x)

def Json.found : Json → Found
  | .null => .null
  | .bool b => .bool b
  | .number (.int i _ _) => .int i
  | .number (.float x _) => .float x
  | .string s => .string s
  | .array _ => .sequence
  | .object _ => .map

namespace Decode

def wrongType {α : Type} (v : Json) (expected : String) : Except Misfit α :=
  .error (.wrongType v.found expected)

def text : Decoder String
  | .string s => .ok s
  | v => wrongType v "a string"

def bool : Decoder Bool
  | .bool b => .ok b
  | v => wrongType v "a boolean"

def natural (type : String) : Decoder Nat
  | .number (.int i _ _) => if 0 ≤ i then .ok i.toNat else .error (.wrongValue (.int i) type)
  | v => wrongType v type

def option {α : Type} (d : Decoder α) : Decoder (Option α)
  | .null => .ok none
  | v => (d v).map some

def list {α : Type} (d : Decoder α) : Decoder (List α)
  | .array items => items.mapM d
  | v => wrongType v "a sequence"

def tagged {α : Type} (known : List String) (read : String → Option Json → Except Misfit α) :
    Decoder α
  | .string name => check name none
  | .object [(name, v)] => check name (some v)
  | .object _ => .error (.wrongValue .map "map with a single key")
  | v => wrongType v "string or map"
where
  check (name : String) (v : Option Json) : Except Misfit α :=
    if known.contains name then read name v else .error (.unknownVariant name known)

def choice {α : Type} (all : List α) (name : α → String) : Decoder α :=
  tagged (all.map name) fun n v =>
    match all.find? (name · = n), v with
    | some a, none | some a, some .null => .ok a
    | some _, some v => wrongType v "unit"
    | none, _ => .error (.unknownVariant n (all.map name))

structure Parts where
  entries : List (String × Json)
  absent : String → Misfit
  surplus : Option Misfit

namespace Parts

def ofObject (fields : List (String × Json)) : Parts := ⟨fields, .missingField, none⟩

def ofArray (title : String) (names : List String) (items : List Json) : Parts where
  entries := names.zip items
  absent _ := .wrongLength items.length s!"struct {title} with {names.length} elements"
  surplus :=
    if names.length < items.length then some (.wrongLength items.length "fewer elements in array")
    else none

def of (title : String) (names : List String) : Decoder Parts
  | .object fields => .ok (ofObject fields)
  | .array items => .ok (ofArray title names items)
  | v => wrongType v s!"struct {title}"

def required {α : Type} (p : Parts) (name : String) (d : Decoder α) : Except Misfit α :=
  match Json.field? name p.entries with
  | some v => d v
  | none => .error (p.absent name)

def optional {α : Type} (p : Parts) (name : String) (d : Decoder α) (default : α) :
    Except Misfit α :=
  match Json.field? name p.entries with
  | some v => d v
  | none => .ok default

def nullable {α : Type} (p : Parts) (name : String) (d : Decoder (Option α)) :
    Except Misfit (Option α) :=
  match Json.field? name p.entries, p.absent name with
  | some v, _ => d v
  | none, .missingField _ => .ok none
  | none, m => .error m

def verify (p : Parts) (checks : List (String × Decoder Unit)) : Except Misfit Unit :=
  p.entries.forM fun (name, v) =>
    match checks.lookup name with
    | some check => check v
    | none => .ok ()

def finish {α : Type} (p : Parts) (a : α) : Except Misfit α :=
  match p.surplus with
  | some m => .error m
  | none => .ok a

end Parts

def only {α : Type} (d : Decoder α) : Decoder Unit := fun v => (d v).map fun _ => ()

end Decode
end ConstraintDesk
