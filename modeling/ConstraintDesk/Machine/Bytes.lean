import ConstraintDesk.Decimal.Binary64
import ConstraintDesk.Text.Basic
/-! Bytes as the programs of the machine handle them: a list of characters, each of which stands for the
byte of its number. ASCII text is its own list of bytes. -/
namespace ConstraintDesk.Machine

-- Lists are compared as in the core library, whatever else is imported.
attribute [local instance (high)] List.instLE List.decidableLE

abbrev Bytes := List Char

namespace Bytes

def ofList (bytes : List UInt8) : Bytes := bytes.map fun b => Char.ofNat b.toNat

def toList (b : Bytes) : List UInt8 := b.map fun c => c.toNat.toUInt8

def ofText (cs : List Char) : Bytes := ofList (Utf8.encode cs)

def ofString (s : String) : Bytes := ofText s.toList

def toText (b : Bytes) : List Char := Utf8.decode b.toList

def toString (b : Bytes) : String := String.ofList b.toText

def ofNat (n : Nat) : Bytes := Nat.toDigits 10 n

def ofInt (i : Int) : Bytes := if i < 0 then '-' :: ofNat i.natAbs else ofNat i.natAbs

def isDigit (c : Char) : Bool := Decimal.isDigit c

def nat? (b : Bytes) : Option Nat :=
  if b.isEmpty || !b.all isDigit then none else some (Decimal.natOf b)

def int? (b : Bytes) : Option Int :=
  match b with
  | '-' :: r => (nat? r).map fun n => - (n : Int)
  | '+' :: r => (nat? r).map fun n => (n : Int)
  | _ => (nat? b).map fun n => (n : Int)

def isBlank (c : Char) : Bool := c = ' ' || ('\t' ≤ c && c ≤ '\r')

def lines (b : Bytes) : List Bytes :=
  let pieces := Text.splitOn '\n' b
  if pieces.getLast? = some [] then pieces.dropLast else pieces

def fullLines (b : Bytes) : List Bytes :=
  let done := (lines b).map (· ++ ['\n'])
  if b.isEmpty || b.getLast? = some '\n' then done
  else done.dropLast ++ (done.getLast?.map List.dropLast).toList

def padLeft (width : Nat) (b : Bytes) (fill : Char) : Bytes :=
  List.replicate (width - b.length) fill ++ b

def precedes (a b : Bytes) : Bool := decide (a ≤ b)

def words (b : Bytes) : List Bytes :=
  let (word, found) := b.foldr (fun c (word, found) =>
    if isBlank c then ([], if word.isEmpty then found else word :: found) else (c :: word, found))
    ([], [])
  if word.isEmpty then found else word :: found

end Bytes
end ConstraintDesk.Machine
