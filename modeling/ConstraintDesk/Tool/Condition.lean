import ConstraintDesk.Tool.Work
/-! Conditions on texts, numbers and files, as the tool `test` takes them. -/
namespace ConstraintDesk.Tool

open Machine

def unary? (operator : Bytes) (a : Bytes) : Option (Work Bool) :=
  let onEntry (f : Files → Place → Bool) : Work Bool := do
    let files := (← getThe World).files
    match ← Work.locate a with
    | .ok p => return (files.entry? p).isSome && f files p
    | .error _ => return false
  match String.ofList operator with
  | "-n" => some (return !a.isEmpty)
  | "-z" => some (return a.isEmpty)
  | "-e" | "-r" | "-w" => some (onEntry fun _ _ => true)
  | "-f" => some (onEntry Files.isFile)
  | "-d" => some (onEntry Files.isFolder)
  | "-x" => some (onEntry Files.isFolder)
  | "-s" => some (onEntry fun files p =>
    match files.entry? p with
    | some (.file content) => !content.isEmpty
    | some .folder => true
    | _ => false)
  | "-c" => some (onEntry fun files p =>
    match files.entry? p with
    | some (.device _) => true
    | _ => false)
  | "-t" | "-L" | "-h" | "-p" | "-b" | "-S" | "-u" | "-g" | "-k" => some (return false)
  | _ => none

def binary? (a operator b : Bytes) : Option (Except Bytes Bool) :=
  let numbers (f : Int → Int → Bool) : Except Bytes Bool := do
    let x ← (Bytes.int? (Bytes.words a).flatten).elim (.error a) .ok
    let y ← (Bytes.int? (Bytes.words b).flatten).elim (.error b) .ok
    return f x y
  match String.ofList operator with
  | "=" => some (.ok (a = b))
  | "!=" => some (.ok (a != b))
  | "<" => some (.ok (a < b))
  | ">" => some (.ok (b < a))
  | "-eq" => some (numbers (· = ·))
  | "-ne" => some (numbers (· != ·))
  | "-lt" => some (numbers (· < ·))
  | "-le" => some (numbers (· ≤ ·))
  | "-gt" => some (numbers (fun x y => y < x))
  | "-ge" => some (numbers (fun x y => y ≤ x))
  | _ => none

def isBinary (operator : Bytes) : Bool := (binary? [] operator []).isSome

inductive ConditionError where
  | unexpected (operator : Bytes)
  | notANumber (text : Bytes)
  | missing
  | missingAfter (operator : Bytes)

def ConditionError.message : ConditionError → String
  | .unexpected o => s!"{Bytes.toString o}: unexpected operator"
  | .notANumber t => s!"Illegal number: {Bytes.toString t}"
  | .missing => "argument expected"
  | .missingAfter o => s!"{Bytes.toString o}: argument expected"

abbrev Condition := ExceptT ConditionError Work

def binaryOf (a operator b : Bytes) : Condition Bool :=
  match binary? a operator b with
  | some (.ok v) => return v
  | some (.error t) => throw (.notANumber t)
  | none => throw (.unexpected operator)

mutual

def anyOf (fuel : Nat) (args : List Bytes) : Condition (Bool × List Bytes) := do
  match fuel with
  | 0 => throw .missing
  | fuel + 1 =>
    let (a, rest) ← allOf fuel args
    match rest with
    | ['-', 'o'] :: rest =>
      let (b, rest) ← anyOf fuel rest
      return (a || b, rest)
    | _ => return (a, rest)

def allOf (fuel : Nat) (args : List Bytes) : Condition (Bool × List Bytes) := do
  match fuel with
  | 0 => throw .missing
  | fuel + 1 =>
    let (a, rest) ← one fuel args
    match rest with
    | ['-', 'a'] :: rest =>
      let (b, rest) ← allOf fuel rest
      return (a && b, rest)
    | _ => return (a, rest)

def one (fuel : Nat) (args : List Bytes) : Condition (Bool × List Bytes) := do
  match fuel with
  | 0 => throw .missing
  | fuel + 1 =>
    match args with
    | [] => throw .missing
    | a :: operator :: b :: rest =>
      if (binary? a operator b).isSome then return (← binaryOf a operator b, rest)
      else simple fuel a (operator :: b :: rest)
    | a :: rest => simple fuel a rest

def simple (fuel : Nat) (a : Bytes) (rest : List Bytes) : Condition (Bool × List Bytes) := do
  match fuel with
  | 0 => throw .missing
  | fuel + 1 =>
    match a, rest with
    | ['!'], _ :: _ =>
      let (v, rest) ← one fuel rest
      return (!v, rest)
    | ['('], _ :: _ =>
      let (v, rest) ← anyOf fuel rest
      match rest with
      | [')'] :: rest => return (v, rest)
      | _ => throw .missing
    | _, b :: rest' =>
      match unary? a b with
      | some v => return (← ExceptT.lift v, rest')
      | none => return (!a.isEmpty, rest)
    | _, [] => return (!a.isEmpty, [])

end

def test (name : String) (args : List Bytes) : Work Nat := do
  let refuse (text : String) : Work Nat := do
    Work.grumble s!"{name}: {text}"
    return 2
  if name = "[" && args.getLast? != some [']'] then refuse "missing ]"
  else
    let args := if name = "[" then args.dropLast else args
    if args.isEmpty then return 1
    match ← (anyOf (4 * args.length + 8) args).run with
    | .ok (v, []) => return if v then 0 else 1
    | .ok (_, o :: rest) =>
      let last := (args[args.length - rest.length - 2]?).getD o
      let e : ConditionError := if isBinary o && rest.isEmpty then .missingAfter o else .unexpected last
      refuse e.message
    | .error e => refuse e.message

end ConstraintDesk.Tool
