import ConstraintDesk.Machine.World
/-! What every tool has at hand: where it runs, its channels, and its options. A tool ends with a status. -/
namespace ConstraintDesk.Tool

open Machine

structure Process where
  folder : Place
  channels : List (Nat × Channel)
  environment : List (Bytes × Bytes)
  voice : String

abbrev Work := ReaderT Process Act

namespace Work

def channel? (n : Nat) : Work (Option Channel) := return (← read).channels.lookup n

def writeTo (n : Nat) (b : Bytes) : Work Bool := do
  match ← channel? n with
  | none => return false
  | some channel => return (← Act.write channel b).toBool

def print (b : Bytes) : Work Unit := do
  let _ ← writeTo 1 b

def complain (text : String) : Work Unit := do
  let _ ← writeTo 2 (Bytes.ofString text)

def grumble (text : String) : Work Unit := do complain ((← read).voice ++ text ++ "\n")

def pour (s : Stream) : Work Unit := do
  print s.ready
  if s.isEndless then
    match ← channel? 1 with
    | some channel => Act.writeEndless channel s.cycle
    | none => return ()

def locate (path : Bytes) : Work (Except Refusal Place) := do
  return (← getThe World).files.locate (← read).folder path

def input : Work Stream := do
  match ← channel? 0 with
  | some channel => Act.takeAll channel
  | none => return .empty

def putBack (s : Stream) : Work Unit := do
  match ← channel? 0 with
  | some channel => Act.setStream channel s
  | none => return ()

def source (path : Bytes) : Work (Except Refusal Stream) := do
  if path = ['-'] then return .ok (← input)
  if path = "/dev/stdin".toList then return .ok (← input)
  let files := (← getThe World).files
  match ← locate path with
  | .error r => return .error r
  | .ok p =>
    match files.entry? p with
    | some (.device cycle) => return .ok ⟨[], cycle, none⟩
    | _ => return (files.read p).map fun b => ⟨b, [], some b.length⟩

def finite (s : Stream) : Work Bytes := do
  if s.isEndless then Act.stop else return s.ready

def change (f : Files → Place → Except Refusal Files) (path : Bytes) : Work (Except Refusal Unit) := do
  match ← locate path with
  | .error r => return .error r
  | .ok p =>
    match f (← getThe World).files p with
    | .error r => return .error r
    | .ok files =>
      modifyThe World fun w => { w with files }
      return .ok ()

def eachOf {α : Type} (items : List α) (f : α → Work Nat) : Work Nat :=
  items.foldlM (fun status a => return max status (← f a)) 0

end Work

def misused (tool text : String) : Work Nat := do
  Work.complain s!"{tool}: {text}\nTry '{tool} --help' for more information.\n"
  return 1

def missingOperand (tool : String) : Work Nat := misused tool "missing operand"

structure Options where
  flags : List (Char × Bytes)
  operands : List Bytes

namespace Options

def has (o : Options) (c : Char) : Bool := o.flags.any (·.1 = c)

def value? (o : Options) (c : Char) : Option Bytes := (o.flags.reverse.find? (·.1 = c)).map (·.2)

def cluster (valued : List Char) : Bytes → List (Char × Bytes) × Option Char
  | [] => ([], none)
  | c :: r =>
    if valued.contains c then (if r.isEmpty then ([], some c) else ([(c, r)], none))
    else
      let (flags, pending) := cluster valued r
      ((c, []) :: flags, pending)

def read (valued : List Char) (mixed : Bool) : Option Char → List Bytes → Options
  | _, [] => ⟨[], []⟩
  | some c, a :: rest =>
    let o := read valued mixed none rest
    { o with flags := (c, a) :: o.flags }
  | none, a :: rest =>
    match a with
    | ['-', '-'] => ⟨[], rest⟩
    | '-' :: c :: r =>
      let (flags, pending) := cluster valued (c :: r)
      let o := read valued mixed pending rest
      { o with flags := flags ++ o.flags }
    | _ =>
      if mixed then
        let o := read valued mixed none rest
        { o with operands := a :: o.operands }
      else ⟨[], a :: rest⟩

def ofArgs (valued : String) (args : List Bytes) : Options := read valued.toList true none args

end Options
end ConstraintDesk.Tool
