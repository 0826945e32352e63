/-! The finite and infinite numbers of the 64-bit binary format, in exact integer arithmetic, and how
they are read. A magnitude is kept as its bit pattern, so magnitudes are ordered as natural numbers and
rounding up past a power of two is a carry. There is no not-a-number: nothing here produces one. A decimal
text is rounded once, to the nearest number, however many digits it has. -/
namespace ConstraintDesk

-- Powers are those of the core library, whatever else is imported.
attribute [local instance (high)] instPowNat

def Binary64.infinityCode : Nat := 0x7FF0000000000000

structure Binary64 where
  negative : Bool
  code : Nat
  codeLe : code ≤ Binary64.infinityCode
  deriving DecidableEq

namespace Binary64

def isFinite (x : Binary64) : Bool := decide (x.code < infinityCode)

def significand (code : Nat) : Nat :=
  if code < 2 ^ (52 : Nat) then code else 2 ^ (52 : Nat) + code % 2 ^ (52 : Nat)

def exponent (code : Nat) : Int :=
  if code < 2 ^ (52 : Nat) then -1074 else (code / 2 ^ (52 : Nat) : Nat) - 1075

def roundHalfEven (num den : Nat) : Nat :=
  let floor := num / den
  let rest := 2 * (num % den)
  if rest < den then floor else if rest = den then floor + floor % 2 else floor + 1

def scaled (num den : Nat) (exponent : Int) : Nat × Nat :=
  if exponent < 0 then (num * 2 ^ exponent.natAbs, den) else (num, den * 2 ^ exponent.natAbs)

def gridExponent (num den : Nat) : Int :=
  let guess : Int := max (-1074) ((num.log2 : Int) - den.log2 - 53)
  let q := scaled num den guess
  if q.1 < q.2 * 2 ^ (53 : Nat) then guess else guess + 1

def unboundedCode (num den : Nat) : Nat :=
  let e := gridExponent num den
  let q := scaled num den e
  (e + 1074).toNat * 2 ^ (52 : Nat) + roundHalfEven q.1 q.2

def codeOfRatio (num den : Nat) : Nat :=
  if num = 0 then 0 else min (unboundedCode num den) infinityCode

theorem codeOfRatioLe (num den : Nat) : codeOfRatio num den ≤ infinityCode := by
  unfold codeOfRatio
  split
  · exact Nat.zero_le _
  · exact Nat.min_le_right _ _

def ofRatio (negative : Bool) (num den : Nat) : Binary64 :=
  ⟨negative, codeOfRatio num den, codeOfRatioLe num den⟩

def ofInt (i : Int) : Binary64 := ofRatio (decide (i < 0)) i.natAbs 1

def neg (x : Binary64) : Binary64 := { x with negative := !x.negative }

instance : Neg Binary64 := ⟨neg⟩

def ratio (code : Nat) : Nat × Nat :=
  let e := exponent code
  if e < 0 then (significand code, 2 ^ e.natAbs) else (significand code * 2 ^ e.natAbs, 1)

def timesTen (x : Binary64) (power : Nat) : Binary64 :=
  if x.isFinite then ofRatio x.negative ((ratio x.code).1 * 10 ^ power) (ratio x.code).2 else x

def overTen (x : Binary64) (power : Nat) : Binary64 :=
  if x.isFinite then ofRatio x.negative (ratio x.code).1 ((ratio x.code).2 * 10 ^ power) else x

def zero : Binary64 := ⟨false, 0, Nat.zero_le _⟩

def infinity : Binary64 := ⟨false, infinityCode, Nat.le_refl _⟩

/-- The number nearest to `digits` times ten to `power`. An exponent so large or so small that the
digits cannot matter is settled first. -/
def ofDecimal (negative : Bool) (digits : Nat) (power : Int) : Binary64 :=
  if digits = 0 then { zero with negative }
  else if 310 < power then { infinity with negative }
  else if power + digits.log2 < -1080 then { zero with negative }
  else if power < 0 then ofRatio negative digits (10 ^ power.natAbs)
  else ofRatio negative (digits * 10 ^ power.natAbs) 1

end Binary64
end ConstraintDesk

namespace ConstraintDesk.Decimal

def isDigit (c : Char) : Bool := '0' ≤ c && c ≤ '9'

def digitValue (c : Char) : Nat := c.toNat - '0'.toNat

def natOf (digits : List Char) : Nat := digits.foldl (fun n c => 10 * n + digitValue c) 0

def nat? (cs : List Char) : Option Nat :=
  if cs.isEmpty || !cs.all isDigit then none else some (natOf cs)

def digitIn? (base : Nat) (c : Char) : Option Nat :=
  let d :=
    if isDigit c then digitValue c
    else if 'a' ≤ c && c ≤ 'f' then c.toNat - 'a'.toNat + 10
    else if 'A' ≤ c && c ≤ 'F' then c.toNat - 'A'.toNat + 10
    else base
  if d < base then some d else none

def natIn? (base : Nat) (cs : List Char) : Option Nat :=
  if cs.isEmpty then none
  else cs.foldlM (fun n c => (digitIn? base c).map (base * n + ·)) 0

def splitSign (cs : List Char) : Bool × List Char :=
  match cs with
  | '-' :: r => (true, r)
  | '+' :: r => (false, r)
  | _ => (false, cs)

def exponent? (cs : List Char) : Option Int :=
  match cs with
  | [] => some 0
  | c :: r =>
    if c = 'e' || c = 'E' then
      let (negative, digits) := splitSign r
      (nat? digits).map fun n => if negative then - (n : Int) else n
    else none

def magnitude? (negative : Bool) (cs : List Char) : Option Binary64 := do
  let whole := cs.takeWhile isDigit
  let rest := cs.dropWhile isDigit
  let (fraction, rest) := match rest with
    | '.' :: r => (r.takeWhile isDigit, r.dropWhile isDigit)
    | _ => ([], rest)
  if whole.isEmpty && fraction.isEmpty then none
  let e ← exponent? rest
  some (Binary64.ofDecimal negative (natOf (whole ++ fraction)) (e - fraction.length))

def float? (cs : List Char) : Option Binary64 :=
  let (negative, rest) := splitSign cs
  magnitude? negative rest

end ConstraintDesk.Decimal
