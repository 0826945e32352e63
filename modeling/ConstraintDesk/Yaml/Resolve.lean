import ConstraintDesk.Decimal.Binary64
import ConstraintDesk.Text.Basic
/-! What a plain scalar is: null, a truth value, a number, or else its text. -/
namespace ConstraintDesk.Yaml

attribute [local instance (high)] instPowNat

inductive Resolved where
  | null
  | bool (value : Bool)
  | int (value : Int)
  | hugeInt (value : Int)
  | float (value : Binary64)
  | notANumber
  | text

namespace Resolved

def isNull (cs : List Char) : Bool :=
  ["null", "Null", "NULL", "~"].contains (String.ofList cs)

def bool? (cs : List Char) : Option Bool :=
  let s := String.ofList cs
  if ["true", "True", "TRUE"].contains s then some true
  else if ["false", "False", "FALSE"].contains s then some false
  else none

def isZeroPadded (cs : List Char) : Bool :=
  match (Decimal.splitSign cs).2 with
  | '0' :: d :: r => (d :: r).all Decimal.isDigit
  | _ => false

def basePart? (cs : List Char) : Option (Nat × List Char) :=
  match cs with
  | '0' :: 'x' :: r => some (16, r)
  | '0' :: 'o' :: r => some (8, r)
  | '0' :: 'b' :: r => some (2, r)
  | _ => none

def natural? (padded : Bool) (cs : List Char) : Option Nat :=
  match basePart? cs with
  | some (base, r) => Decimal.natIn? base r
  | none => if padded then none else Decimal.nat? cs

def integer? (cs : List Char) : Option Int :=
  let (negative, digits) := Decimal.splitSign cs
  (natural? (isZeroPadded cs) digits).map fun n => if negative then - (n : Int) else n

def int? (cs : List Char) : Option Resolved :=
  (integer? cs).bind fun i =>
    if -2 ^ (63 : Nat) ≤ i && i < 2 ^ (64 : Nat) then some (.int i)
    else if -2 ^ (127 : Nat) ≤ i && i < 2 ^ (128 : Nat) then some (.hugeInt i)
    else none

def infinityWords : List String := [".inf", ".Inf", ".INF"]

def float? (cs : List Char) : Option Resolved :=
  let (negative, magnitude) := Decimal.splitSign cs
  let word := String.ofList magnitude
  if infinityWords.contains word then some (.float { Binary64.infinity with negative })
  else if [".nan", ".NaN", ".NAN"].contains (String.ofList cs) then some .notANumber
  else
    match Decimal.magnitude? negative magnitude with
    | some x => if x.isFinite then some (.float x) else none
    | none => none

def plain (cs : List Char) : Resolved :=
  if cs.isEmpty || isNull cs then .null
  else match bool? cs with
    | some b => .bool b
    | none => (int? cs).getD (if isZeroPadded cs then .text else (float? cs).getD .text)

end Resolved
end ConstraintDesk.Yaml
