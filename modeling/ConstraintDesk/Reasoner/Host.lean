import ConstraintDesk.Decode.Record
import ConstraintDesk.Machine.Ending
/-! What a run of the reasoner asks of the system around it, where every step may fail, and what it
yields: what was printed, whether the model can be satisfied, and an error if the run failed or refused
the model. -/
namespace ConstraintDesk

open Machine (Ending Refusal)

structure Finished where
  ending : Ending
  stdout : List UInt8
  stderr : List UInt8
  deriving DecidableEq, Repr

inductive Waiting where
  | finished (program : Finished)
  | refused (refusal : Refusal)
  | late
  deriving DecidableEq, Repr

/-- A system with states of type `σ` on which programs run that are known by a `π`. -/
structure Host (σ π : Type) where
  freshName : StateM σ String
  makeFolder : (path : String) → StateM σ (Except Refusal Unit)
  writeFile : (path : String) → (content : List UInt8) → StateM σ (Except Refusal Unit)
  start : (program : String) → (args : List String) → (folder : String) →
    StateM σ (Except Refusal π)
  wait : π → (limit : Option Nat) → StateM σ Waiting
  removeFolder : (path : String) → StateM σ (Except Refusal Unit)

open Decode

structure Outcome where
  error : Option String
  stdout : String
  stderr : String
  isSatisfiable : Bool
  deriving DecidableEq, Repr

namespace Outcome

def success (stdout : String) (isSatisfiable : Bool) : Outcome := ⟨none, stdout, "", isSatisfiable⟩

def failure (error stderr : String) : Outcome := ⟨some error, "", stderr, false⟩

def isError (o : Outcome) : Bool := o.error.isSome

def fields (o : Outcome) : List (String × Json) :=
  [("error", .ofOption .string o.error), ("stdout", .string o.stdout), ("stderr", .string o.stderr),
   ("isSatisfiable", .bool o.isSatisfiable)]

def toJson (o : Outcome) : Json := .object o.fields

def names : List String := ["error", "stdout", "stderr", "isSatisfiable"]

def ofParts (parts : Parts) : Except Misfit Outcome := do
  parts.verify [("error", only (option text)), ("stdout", only text), ("stderr", only text),
    ("isSatisfiable", only bool)]
  let e ← parts.nullable "error" (option text)
  parts.finish ⟨e, ← parts.required "stdout" text, ← parts.required "stderr" text,
    ← parts.required "isSatisfiable" bool⟩

def ofJson : Decoder Outcome := fun v => do ofParts (← Parts.of "ReasonerOutcome" names v)

end Outcome

structure Report where
  outcome : Outcome
  document : String
  deriving DecidableEq, Repr

namespace Report

def toJson (r : Report) : Json := .object (r.outcome.fields ++ [("document", .string r.document)])

def ofJson : Decoder Report
  | .object fields => do
    let parts := Parts.ofObject fields
    parts.verify [("document", only text)]
    let document ← parts.required "document" text
    return ⟨← Outcome.ofParts (.ofObject fields), document⟩
  | v => wrongType v "struct ReasonerReport"

end Report
end ConstraintDesk
