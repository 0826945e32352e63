import ConstraintDesk.Shell.Reader
/-! Arithmetic of scripts: integers of 64 bits, and variables that may be set on the way. -/
namespace ConstraintDesk.Shell.Arithmetic

attribute [local instance (high)] instPowNat

open Machine

structure Context where
  bindings : List (Bytes × Bytes)

inductive Fault where
  | noOperand
  | noEnd
  | divisionByZero
  | notANumber (text : Bytes)

abbrev Calculation := StateT Context (Except Fault)

def wrap (i : Int) : Int := Int.bmod i (2 ^ (64 : Nat))

def digits? (base : Nat) (b : Bytes) : Option (Int × Bytes) :=
  let word := b.takeWhile fun c => (Decimal.digitIn? base c).isSome
  (Decimal.natIn? base word).map fun n => (wrap n, b.drop word.length)

def number? (b : Bytes) : Option (Int × Bytes) :=
  match b with
  | '0' :: 'x' :: r | '0' :: 'X' :: r => (digits? 16 r).or (some (0, b.tail))
  | '0' :: _ => digits? 8 b
  | _ => digits? 10 b

def literal? (b : Bytes) : Option Int :=
  match number? b with
  | some (i, []) => some i
  | _ => none

def signed? (b : Bytes) : Option Int :=
  match b with
  | '-' :: r => (literal? r).map fun n => - n
  | '+' :: r => literal? r
  | _ => literal? b

def valueOf (name : Bytes) : Calculation Int := do
  match (← get).bindings.lookup name with
  | none => return 0
  | some b =>
    let trimmed := b.filter fun c => !Bytes.isBlank c
    if trimmed.isEmpty then return 0
    match signed? trimmed with
    | some i => return i
    | none => throw (.notANumber b)

def assign (name : Bytes) (i : Int) : Calculation Int := do
  modify fun c => ⟨(name, Bytes.ofInt i) :: c.bindings.filter (·.1 != name)⟩
  return i

def levels : List (List String) :=
  [["||"], ["&&"], ["|"], ["^"], ["&"], ["==", "!="], ["<=", ">=", "<", ">"], ["<<", ">>"],
   ["+", "-"], ["*", "/", "%"]]

def truth (b : Bool) : Int := if b then 1 else 0

def apply (operator : String) (x y : Int) : Except Fault Int :=
  let bits (f : Nat → Nat → Nat) : Int :=
    wrap (f (x % 2 ^ (64 : Nat)).toNat (y % 2 ^ (64 : Nat)).toNat : Nat)
  match operator with
  | "||" => .ok (truth (x != 0 || y != 0))
  | "&&" => .ok (truth (x != 0 && y != 0))
  | "|" => .ok (bits Nat.lor)
  | "^" => .ok (bits Nat.xor)
  | "&" => .ok (bits Nat.land)
  | "==" => .ok (truth (x = y))
  | "!=" => .ok (truth (x != y))
  | "<=" => .ok (truth (x ≤ y))
  | ">=" => .ok (truth (y ≤ x))
  | "<" => .ok (truth (x < y))
  | ">" => .ok (truth (y < x))
  | "<<" => .ok (wrap (x * 2 ^ (y % 64).toNat))
  | ">>" => .ok (x / 2 ^ (y % 64).toNat)
  | "+" => .ok (wrap (x + y))
  | "-" => .ok (wrap (x - y))
  | "*" => .ok (wrap (x * y))
  | "/" => if y = 0 then .error .divisionByZero else .ok (wrap (x.tdiv y))
  | "%" => if y = 0 then .error .divisionByZero else .ok (wrap (x.tmod y))
  | _ => .error .noOperand

def skip (cs : Bytes) : Bytes := cs.dropWhile Bytes.isBlank

def isCut (operator : String) (rest : Bytes) : Bool :=
  match operator, rest with
  | "|", '|' :: _ | "&", '&' :: _ | "<", '<' :: _ | ">", '>' :: _ => true
  | _, '=' :: '=' :: _ => false
  | o, '=' :: _ => o != "==" && o != "!=" && o != "<=" && o != ">=" && o != "||" && o != "&&"
  | _, _ => false

def operator? (names : List String) (cs : Bytes) : Option (String × Bytes) :=
  names.findSome? fun o =>
    if o.toList.isPrefixOf cs then
      let rest := cs.drop o.length
      if isCut o rest then none else some (o, rest)
    else none

def assignment? (cs : Bytes) : Option (Option String × Bytes) :=
  match cs with
  | '=' :: r => if r.head? = some '=' then none else some (none, r)
  | _ =>
    (["<<", ">>", "+", "-", "*", "/", "%", "&", "|", "^"].findSome? fun o =>
      if (o.toList ++ ['=']).isPrefixOf cs then some (some o, cs.drop (o.length + 1)) else none)

mutual

def expression (fuel : Nat) (cs : Bytes) : Calculation (Int × Bytes) := do
  match fuel with
  | 0 => throw .noOperand
  | fuel + 1 =>
    let cs := skip cs
    let name := if cs.head?.any isNameStart then cs.takeWhile isNameChar else []
    let assigned := if name.isEmpty then none else assignment? (skip (cs.drop name.length))
    match assigned with
    | some (operator, rest) =>
      let (y, rest) ← expression fuel rest
      match operator with
      | none => return (← assign name y, rest)
      | some o =>
        let z ← apply o (← valueOf name) y
        return (← assign name z, rest)
    | none =>
      let (c, rest) ← operators fuel levels cs
      match skip rest with
      | '?' :: r =>
        let (x, rest) ← expression fuel r
        match skip rest with
        | ':' :: r =>
          let (y, rest) ← expression fuel r
          return (if c != 0 then x else y, rest)
        | _ => throw .noOperand
      | rest => return (c, rest)

def operators (fuel : Nat) (ops : List (List String)) (cs : Bytes) : Calculation (Int × Bytes) := do
  match fuel with
  | 0 => throw .noOperand
  | fuel + 1 =>
    match ops with
    | [] => operand fuel cs
    | names :: tighter =>
      let (x, rest) ← operators fuel tighter cs
      more fuel names tighter x rest

def more (fuel : Nat) (names : List String) (tighter : List (List String)) (x : Int) (cs : Bytes) :
    Calculation (Int × Bytes) := do
  match fuel with
  | 0 => throw .noOperand
  | fuel + 1 =>
    match operator? names (skip cs) with
    | none => return (x, skip cs)
    | some (o, rest) =>
      let (y, rest) ← operators fuel tighter rest
      more fuel names tighter (← apply o x y) rest

def operand (fuel : Nat) (cs : Bytes) : Calculation (Int × Bytes) := do
  match fuel with
  | 0 => throw .noOperand
  | fuel + 1 =>
    match skip cs with
    | '-' :: r =>
      let (x, rest) ← operand fuel r
      return (wrap (- x), rest)
    | '+' :: r => operand fuel r
    | '!' :: r =>
      let (x, rest) ← operand fuel r
      return (truth (x = 0), rest)
    | '~' :: r =>
      let (x, rest) ← operand fuel r
      return (- x - 1, rest)
    | '(' :: r =>
      let (x, rest) ← expression fuel r
      match skip rest with
      | ')' :: rest => return (x, rest)
      | _ => throw .noOperand
    | cs =>
      let word := cs.takeWhile isNameChar
      if word.head?.any isNameStart then return (← valueOf word, cs.drop word.length)
      match number? cs with
      | some found => return found
      | none => throw .noOperand

end

def Fault.message (expression : String) : Fault → String
  | .noOperand => "arithmetic expression: expecting primary: \"" ++ expression ++ "\""
  | .noEnd => "arithmetic expression: expecting EOF: \"" ++ expression ++ "\""
  | .divisionByZero => "arithmetic expression: division by zero: \"" ++ expression ++ "\""
  | .notANumber text => s!"Illegal number: {Bytes.toString text}"

def evaluate (bindings : List (Bytes × Bytes)) (cs : Bytes) :
    Except Fault (Int × List (Bytes × Bytes)) := do
  if (skip cs).isEmpty then return (0, bindings)
  let ((i, rest), c) ← (expression (16 * cs.length + 32) cs).run ⟨bindings⟩
  if (skip rest).isEmpty then return (i, c.bindings) else throw .noEnd

end ConstraintDesk.Shell.Arithmetic
