import ConstraintDesk.Machine.Regex
import ConstraintDesk.Tool.Work
/-! Expressions whose operands and operators are arguments of their own. Null and zero are false. -/
namespace ConstraintDesk.Tool

open Machine

namespace Expression

inductive Fault where
  | missingAfter (argument : Bytes)
  | unexpected (argument : Bytes)
  | unclosed (argument : Bytes)
  | noInteger
  | divisionByZero
  | pattern (fault : Regex.Fault)

def Fault.message : Fault → String
  | .missingAfter a => s!"syntax error: missing argument after '{Bytes.toString a}'"
  | .unexpected a => s!"syntax error: unexpected argument '{Bytes.toString a}'"
  | .unclosed a => s!"syntax error: expecting ')' after '{Bytes.toString a}'"
  | .noInteger => "non-integer argument"
  | .divisionByZero => "division by zero"
  | .pattern fault => fault.message

abbrev Result := Except Fault

def isTrue (b : Bytes) : Bool :=
  match Bytes.int? b with
  | some i => i != 0
  | none => !b.isEmpty

def truth (b : Bool) : Bytes := if b then ['1'] else ['0']

def levels : List (List String) :=
  [["|"], ["&"], ["<", "<=", "=", "==", "!=", ">=", ">"], ["+", "-"], ["*", "/", "%"], [":"]]

def matched (a pattern : Bytes) : Result Bytes :=
  match Regex.parse false pattern with
  | .error fault => .error (.pattern fault)
  | .ok r =>
    let grouped := (pattern.zip pattern.tail).any fun x => x.1 = '\\' && x.2 = '('
    match Regex.matchAt false r ⟨none, 0, a, []⟩ with
    | some m => .ok (if grouped then (m.groups.lookup 1).getD [] else Bytes.ofNat (m.finish - m.start))
    | none => .ok (if grouped then [] else ['0'])

def compare (operator : String) (a b : Bytes) : Bytes :=
  let order : Ordering := match Bytes.int? a, Bytes.int? b with
    | some x, some y => Ord.compare x y
    | _, _ => if a = b then .eq else if Bytes.precedes a b then .lt else .gt
  truth (match operator with
    | "<" => order = .lt
    | "<=" => order != .gt
    | "=" | "==" => order = .eq
    | "!=" => order != .eq
    | ">=" => order != .lt
    | _ => order = .gt)

def calculate (operator : String) (x y : Int) : Result Int :=
  match operator with
  | "+" => .ok (x + y)
  | "-" => .ok (x - y)
  | "*" => .ok (x * y)
  | "/" => if y = 0 then .error .divisionByZero else .ok (x.tdiv y)
  | _ => if y = 0 then .error .divisionByZero else .ok (x.tmod y)

def apply (operator : String) (a b : Bytes) : Result Bytes :=
  match operator with
  | "|" => .ok (if isTrue a then a else if isTrue b then b else ['0'])
  | "&" => .ok (if isTrue a && isTrue b then a else ['0'])
  | ":" => matched a b
  | "+" | "-" | "*" | "/" | "%" =>
    match Bytes.int? a, Bytes.int? b with
    | some x, some y => (calculate operator x y).map Bytes.ofInt
    | _, _ => .error .noInteger
  | _ => .ok (compare operator a b)

def part (a start count : Bytes) : Bytes :=
  match Bytes.int? start, Bytes.int? count with
  | some s, some n => if s < 1 || n < 1 then [] else (a.drop (s.toNat - 1)).take n.toNat
  | _, _ => []

def indexOf (a set : Bytes) : Nat :=
  let front := a.takeWhile fun c => !set.contains c
  if front.length = a.length then 0 else front.length + 1

mutual

def value (fuel : Nat) (ops : List (List String)) (last : Bytes) (args : List Bytes) :
    Result (Bytes × List Bytes) := do
  match fuel with
  | 0 => throw (.missingAfter last)
  | fuel + 1 =>
    match ops with
    | [] => operand fuel last args
    | names :: tighter =>
      let (a, rest) ← value fuel tighter last args
      more fuel names tighter a rest

def more (fuel : Nat) (names : List String) (tighter : List (List String)) (a : Bytes)
    (args : List Bytes) : Result (Bytes × List Bytes) := do
  match fuel, args with
  | fuel + 1, operator :: rest =>
    if names.contains (String.ofList operator) then
      let (b, rest) ← value fuel tighter operator rest
      more fuel names tighter (← apply (String.ofList operator) a b) rest
    else return (a, args)
  | _, _ => return (a, args)

def operand (fuel : Nat) (last : Bytes) (args : List Bytes) : Result (Bytes × List Bytes) := do
  match fuel with
  | 0 => throw (.missingAfter last)
  | fuel + 1 =>
    match args with
    | [] => throw (.missingAfter last)
    | ['('] :: rest =>
      let (a, rest) ← value fuel levels ['('] rest
      match rest with
      | [')'] :: rest => return (a, rest)
      | other :: _ => throw (.unclosed other)
      | [] => throw (.unclosed a)
    | name :: rest =>
      match String.ofList name, rest with
      | "length", a :: rest => return (Bytes.ofNat a.length, rest)
      | "match", a :: b :: rest => return (← matched a b, rest)
      | "index", a :: b :: rest => return (Bytes.ofNat (indexOf a b), rest)
      | "substr", a :: b :: c :: rest => return (part a b c, rest)
      | _, _ => return (name, rest)

end

end Expression

def expr (args : List Bytes) : Work Nat := do
  if args.isEmpty then
    let _ ← missingOperand "expr"
    return 2
  let result : Expression.Result Bytes := do
    match ← Expression.value (16 * args.length + 16) Expression.levels [] args with
    | (a, []) => pure a
    | (_, extra :: _) => throw (.unexpected extra)
  match result with
  | .ok a =>
    Work.print (a ++ ['\n'])
    return if Expression.isTrue a then 0 else 1
  | .error fault =>
    Work.complain s!"expr: {fault.message}\n"
    return 2

end ConstraintDesk.Tool
