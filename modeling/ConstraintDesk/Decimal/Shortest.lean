import ConstraintDesk.Decimal.Binary64
/-! The decimal text of a binary number: the fewest digits that read back as the same number, and
among those the nearest to it. Where the point or an exponent is written is a matter of the format,
given by a `Spelling`. -/
namespace ConstraintDesk

attribute [local instance (high)] instPowNat

structure Decimal where
  digits : Nat
  power : Int
  deriving DecidableEq, Repr

namespace Decimal

def value (d : Decimal) : Binary64 := Binary64.ofDecimal false d.digits d.power

def digitsOf (n : Nat) : List Char := Nat.toDigits 10 n

def leadingPower (num den : Nat) : Int :=
  if den ≤ num then (digitsOf (num / den)).length - 1
  else - ((digitsOf ((den - 1) / num)).length : Int)

def below (num den : Nat) (power : Int) : Nat × Nat × Nat :=
  let (n, d) := if power < 0 then (num * 10 ^ power.natAbs, den) else (num, den * 10 ^ power.natAbs)
  (n / d, 2 * (n % d), d)

def stripZeros : Nat → Decimal → Decimal
  | 0, d => d
  | fuel + 1, d =>
    if d.digits % 10 = 0 && d.digits ≠ 0 then stripZeros fuel ⟨d.digits / 10, d.power + 1⟩ else d

def onGrid? (code : Nat) (tieUp : Bool) (power : Int) : Option Decimal :=
  let (num, den) := Binary64.ratio code
  let (floor, rest, unit) := below num den power
  let low : Decimal := ⟨floor, power⟩
  let high : Decimal := ⟨floor + 1, power⟩
  let lowFits := low.value.code = code
  let highFits := high.value.code = code
  if lowFits && highFits then
    if rest < unit then some low
    else if unit < rest then some high
    else if tieUp || floor % 2 = 1 then some high
    else some low
  else if lowFits then some low
  else if highFits then some high
  else none

/-- The shortest decimal of a positive finite pattern. Seventeen digits always read back. -/
def shortest (code : Nat) (tieUp : Bool) : Decimal :=
  let (num, den) := Binary64.ratio code
  let lead := leadingPower num den
  let found := (List.range 17).findSome? fun (k : Nat) => onGrid? code tieUp (lead - k)
  stripZeros 20 (found.getD ⟨0, 0⟩)

end Decimal

structure Spelling where
  leastPlain : Int
  greatestPlain : Int
  plusSign : Bool
  tieUp : Bool

namespace Spelling

open Decimal (digitsOf shortest)

def zeros (n : Nat) : List Char := List.replicate n '0'

def plain (digits : List Char) (power : Int) : List Char :=
  let point : Int := digits.length + power
  if 0 ≤ power then digits ++ zeros power.toNat ++ ".0".toList
  else if 0 < point then digits.take point.toNat ++ '.' :: digits.drop point.toNat
  else "0.".toList ++ zeros point.natAbs ++ digits

def intDigits (i : Int) : List Char :=
  if i < 0 then '-' :: digitsOf i.natAbs else digitsOf i.natAbs

def scientific (s : Spelling) (digits : List Char) (lead : Int) : List Char :=
  let fraction := match digits with
    | first :: [] => [first]
    | first :: rest => first :: '.' :: rest
    | [] => []
  let sign := if s.plusSign && 0 ≤ lead then ['+'] else []
  fraction ++ 'e' :: sign ++ intDigits lead

def magnitude (s : Spelling) (code : Nat) : List Char :=
  if code = 0 then "0.0".toList
  else if code = Binary64.infinityCode then "inf".toList
  else
    let d := shortest code s.tieUp
    let digits := digitsOf d.digits
    let lead := digits.length + d.power - 1
    if s.leastPlain ≤ lead && lead ≤ s.greatestPlain then plain digits d.power
    else s.scientific digits lead

def write (s : Spelling) (x : Binary64) : List Char :=
  if x.negative then '-' :: s.magnitude x.code else s.magnitude x.code

end Spelling
end ConstraintDesk
