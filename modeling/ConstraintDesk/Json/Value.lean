import ConstraintDesk.Decimal.Binary64
import ConstraintDesk.Decimal.Shortest
/-! Structured values and how they are written. Integers are those of 64 bits, signed or unsigned; every
other number is a finite binary one. An object keeps its keys in the order of the document. JSON is
written on one line with ASCII characters only, or laid out with four spaces a level. -/
namespace ConstraintDesk

attribute [local instance (high)] instPowNat

inductive Number where
  | int (value : Int) (least : -2 ^ (63 : Nat) ≤ value) (greatest : value < 2 ^ (64 : Nat))
  | float (value : Binary64) (finite : value.isFinite = true)
  deriving DecidableEq

inductive Json where
  | null
  | bool (value : Bool)
  | number (value : Number)
  | string (value : String)
  | array (items : List Json)
  | object (fields : List (String × Json))
  deriving Inhabited

namespace Json

def ofInt (i : Int) : Json :=
  if h : -2 ^ (63 : Nat) ≤ i ∧ i < 2 ^ (64 : Nat) then .number (.int i h.1 h.2)
  else
    let x := Binary64.ofInt i
    if f : x.isFinite then .number (.float x f) else .null

def ofBinary64 (x : Binary64) : Json :=
  if f : x.isFinite then .number (.float x f) else .null

def ofNat (n : Nat) : Json := ofInt n

def ofOption {α : Type} (f : α → Json) : Option α → Json
  | none => .null
  | some a => f a

def field? (key : String) : List (String × Json) → Option Json
  | [] => none
  | (k, v) :: rest => if k = key then some v else field? key rest

def put (key : String) (value : Json) : List (String × Json) → List (String × Json)
  | [] => [(key, value)]
  | (k, v) :: rest => if k = key then (k, value) :: rest else (k, v) :: put key value rest

mutual

def same : Json → Json → Bool
  | .null, .null => true
  | .bool a, .bool b => a == b
  | .number a, .number b => a == b
  | .string a, .string b => a == b
  | .array a, .array b => sameItems a b
  | .object a, .object b => sameFields a b
  | _, _ => false

def sameItems : List Json → List Json → Bool
  | [], [] => true
  | v :: a, w :: b => same v w && sameItems a b
  | _, _ => false

def sameFields : List (String × Json) → List (String × Json) → Bool
  | [], [] => true
  | (k, v) :: a, (l, w) :: b => k == l && same v w && sameFields a b
  | _, _ => false

end

mutual

theorem sameIff (v w : Json) : same v w = true ↔ v = w := by
  cases v <;> cases w <;> simp only [same, reduceCtorEq, beq_iff_eq, bool.injEq, number.injEq, string.injEq,
    array.injEq, object.injEq, Bool.false_eq_true]
  · exact sameItemsIff _ _
  · exact sameFieldsIff _ _

theorem sameItemsIff (a b : List Json) : sameItems a b = true ↔ a = b := by
  cases a <;> cases b <;> simp only [sameItems, reduceCtorEq, Bool.false_eq_true, Bool.and_eq_true, List.cons.injEq]
  exact and_congr (sameIff _ _) (sameItemsIff _ _)

theorem sameFieldsIff (a b : List (String × Json)) : sameFields a b = true ↔ a = b := by
  match a, b with
  | [], [] => simp only [sameFields]
  | [], _ :: _ => simp only [sameFields, reduceCtorEq, Bool.false_eq_true]
  | _ :: _, [] => simp only [sameFields, reduceCtorEq, Bool.false_eq_true]
  | (k, v) :: a, (l, w) :: b =>
    simp only [sameFields, Bool.and_eq_true, beq_iff_eq, List.cons.injEq, Prod.mk.injEq]
    exact and_congr (and_congr_right fun _ => sameIff v w) (sameFieldsIff a b)

end

instance : DecidableEq Json := fun v w => decidable_of_iff (same v w = true) (sameIff v w)

end Json

def Json.spelling : Spelling := ⟨-5, 15, true, false⟩

def Number.text : Number → List Char
  | .int i _ _ => Spelling.intDigits i
  | .float x _ => Json.spelling.write x

namespace Json

def hexDigits (width n : Nat) : List Char :=
  let digits := Nat.toDigits 16 n
  List.replicate (width - digits.length) '0' ++ digits

def unitEscape (n : Nat) : List Char := '\\' :: 'u' :: hexDigits 4 n

def escapeChar (ascii : Bool) (c : Char) : List Char :=
  let n := c.toNat
  if c = '"' then ['\\', '"']
  else if c = '\\' then ['\\', '\\']
  else if c = '\n' then ['\\', 'n']
  else if c = '\r' then ['\\', 'r']
  else if c = '\t' then ['\\', 't']
  else if n = 8 then ['\\', 'b']
  else if n = 12 then ['\\', 'f']
  else if n < 0x20 then unitEscape n
  else if ascii && 0x7F ≤ n then
    if n < 0x10000 then unitEscape n
    else unitEscape (0xD800 + (n - 0x10000) / 0x400) ++ unitEscape (0xDC00 + (n - 0x10000) % 0x400)
  else [c]

def quote (ascii : Bool) (s : String) : String :=
  String.ofList ('"' :: s.toList.flatMap (escapeChar ascii) ++ ['"'])

mutual

def compact : Json → String
  | .null => "null"
  | .bool b => if b then "true" else "false"
  | .number n => String.ofList n.text
  | .string s => quote true s
  | .array items => "[" ++ ",".intercalate (compactItems items) ++ "]"
  | .object fields => "\x7b" ++ ",".intercalate (compactFields fields) ++ "\x7d"

def compactItems : List Json → List String
  | [] => []
  | v :: vs => compact v :: compactItems vs

def compactFields : List (String × Json) → List String
  | [] => []
  | (k, v) :: rest => (quote true k ++ ":" ++ compact v) :: compactFields rest

end

def indentation (level : Nat) : String := String.ofList (List.replicate (4 * level) ' ')

def block (level : Nat) (left right : String) (parts : List String) : String :=
  if parts.isEmpty then left ++ right
  else
    let inner := "\n" ++ indentation (level + 1)
    left ++ inner ++ ("," ++ inner).intercalate parts ++ "\n" ++ indentation level ++ right

mutual

def pretty (level : Nat) : Json → String
  | .null => "null"
  | .bool b => if b then "true" else "false"
  | .number n => String.ofList n.text
  | .string s => quote false s
  | .array items => block level "[" "]" (prettyItems (level + 1) items)
  | .object fields => block level "\x7b" "\x7d" (prettyFields (level + 1) fields)

def prettyItems (level : Nat) : List Json → List String
  | [] => []
  | v :: vs => pretty level v :: prettyItems level vs

def prettyFields (level : Nat) : List (String × Json) → List String
  | [] => []
  | (k, v) :: rest => (quote false k ++ ": " ++ pretty level v) :: prettyFields level rest

end

end Json
end ConstraintDesk
