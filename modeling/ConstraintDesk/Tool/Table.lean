import ConstraintDesk.Tool.Condition
import ConstraintDesk.Tool.Dump
import ConstraintDesk.Tool.Edit
import ConstraintDesk.Tool.Expression
import ConstraintDesk.Tool.Folders
import ConstraintDesk.Tool.Output
import ConstraintDesk.Tool.Search
import ConstraintDesk.Tool.ByteMap
/-! The tools that the machine has, by name. -/
namespace ConstraintDesk.Tool

attribute [local instance (high)] Zero.ofOfNat0

open Machine

def micros? (b : Bytes) : Option Nat :=
  let whole := b.takeWhile Bytes.isDigit
  let r := b.drop whole.length
  let (fraction, r) := match r with
    | '.' :: r => (r.takeWhile Bytes.isDigit, r.dropWhile Bytes.isDigit)
    | r => ([], r)
  let unit? : Option Nat := match r with
    | [] | ['s'] => some 1
    | ['m'] => some 60
    | ['h'] => some 3600
    | ['d'] => some 86400
    | _ => none
  if whole.isEmpty && fraction.isEmpty then none
  else unit?.map fun unit =>
    let padded := (fraction ++ List.replicate 6 '0').take 6
    (Decimal.natOf whole * 1000000 + Decimal.natOf padded) * unit

def sleep (args : List Bytes) : Work Nat := do
  if args.isEmpty then missingOperand "sleep"
  else match args.mapM micros? with
    | some times =>
      Act.sleep times.sum
      return 0
    | none =>
      (args.filter fun a => (micros? a).isNone).forM fun a =>
        Work.complain s!"sleep: invalid time interval '{shown a}'\n"
      Work.complain "Try 'sleep --help' for more information.\n"
      return 1

def dd (args : List Bytes) : Work Nat := do
  let value? (name : String) : Option Bytes :=
    args.findSome? fun a => if name.toList.isPrefixOf a then some (a.drop name.length) else none
  let size := ((value? "bs=").bind quantity?).getD 512
  let input := (value? "if=").getD ['-']
  match ← Work.source input with
  | .error r =>
    Work.complain s!"dd: failed to open '{shown input}': {r.text}\n"
    return 1
  | .ok s =>
    let b ← match (value? "count=").bind quantity? with
      | some n => pure (s.take (n * size)).1
      | none => Work.finite s
    match value? "of=" with
    | none => Work.print b
    | some path => let _ ← Work.change (fun files p => files.write p b false) path
    let broken := if b.length % size = 0 then 0 else 1
    let blocks := s!"{b.length / size}+{broken} records"
    Work.complain s!"{blocks} in\n{blocks} out\n{b.length} bytes copied\n"
    return 0

def printEnvironment (args : List Bytes) : Work Nat := do
  let all := (← read).environment
  match args with
  | [] =>
    Work.print (unlinesOf (all.map fun (name, v) => name ++ '=' :: v))
    return 0
  | names => Work.eachOf names fun name => do
    match all.lookup name with
    | some v =>
      Work.print (v ++ ['\n'])
      return 0
    | none => return 1

def pwd : Work Nat := do
  Work.print (Files.pathOf (← read).folder ++ ['\n'])
  return 0

def all : List (String × (List Bytes → Work Nat)) :=
  [("cat", cat), ("head", head), ("tail", tail), ("wc", wc), ("sort", sort), ("uniq", uniq),
   ("cut", cut), ("rev", rev), ("tac", tac), ("nl", nl), ("tee", tee), ("tr", tr),
   ("grep", grep (some false)), ("egrep", grep (some true)), ("fgrep", grep none), ("sed", sed),
   ("ls", ls), ("mkdir", mkdir), ("rmdir", rmdir), ("rm", rm), ("cp", cp), ("mv", mv),
   ("touch", touch), ("chmod", chmod), ("basename", basename), ("dirname", dirname), ("find", find),
   ("echo", echoProgram), ("printf", printf), ("seq", seq), ("yes", yes), ("sleep", sleep),
   ("dd", dd), ("expr", expr), ("test", test "test"), ("[", test "["), ("pwd", fun _ => pwd),
   ("printenv", printEnvironment), ("true", fun _ => return 0), ("false", fun _ => return 1),
   ("sync", fun _ => return 0), ("od", od), ("cmp", cmp), ("paste", paste), ("fold", fold),
   ("stat", stat)]

def find? (name : Bytes) : Option (List Bytes → Work Nat) := all.lookup (String.ofList name)

end ConstraintDesk.Tool
