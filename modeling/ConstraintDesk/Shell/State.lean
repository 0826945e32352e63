import ConstraintDesk.Machine.Glob
import ConstraintDesk.Shell.Script
import ConstraintDesk.Tool.Work
/-! What a running script knows: where it is, its channels, variables, functions and arguments. -/
namespace ConstraintDesk.Shell

open Machine

structure Job where
  number : Nat
  status : Nat
  finish : Nat

structure State where
  folder : Place
  channels : List (Nat × Channel)
  bindings : List (Bytes × Bytes)
  exported : List Bytes
  fixed : List Bytes
  functions : List (Bytes × Command)
  name : Bytes
  label : String
  arguments : List Bytes
  locals : Option (List (Bytes × Option Bytes))
  status : Nat
  outputStatus : Option Nat
  line : Nat
  loops : Nat
  options : List Char
  farewell : Option Bytes
  jobs : List Job

inductive Jump where
  | exit (status : Nat)
  | leave (status : Nat)
  | breakLoop (levels : Nat)
  | nextLoop (levels : Nat)

abbrev Eval := ExceptT Jump (StateT State Act)

namespace State

def valueOf? (s : State) (name : Bytes) : Option Bytes := s.bindings.lookup name

def setVariable (s : State) (name value : Bytes) : State :=
  if (s.bindings.lookup name).isSome then
    { s with bindings := s.bindings.map fun x => if x.1 = name then (name, value) else x }
  else { s with bindings := s.bindings ++ [(name, value)] }

def unset (s : State) (name : Bytes) : State :=
  { s with bindings := s.bindings.filter (·.1 != name), exported := s.exported.filter (· != name) }

def environment (s : State) : List (Bytes × Bytes) :=
  s.bindings.filter fun x => s.exported.contains x.1

def voice (s : State) : String := s!"{Bytes.toString s.name}: {s.line}: "

def process (s : State) : Tool.Process := ⟨s.folder, s.channels, s.environment, s.voice⟩

def isStrict (s : State) : Bool := s.options.contains 'e'

def separators (s : State) : Bytes := (s.valueOf? "IFS".toList).getD [' ', '\t', '\n']

def joinedArguments (s : State) : Bytes := (s.separators.take 1).intercalate s.arguments

def parameter? (s : State) (name : Bytes) : Option Bytes :=
  match name with
  | ['?'] => some (Bytes.ofNat s.status)
  | ['#'] => some (Bytes.ofNat s.arguments.length)
  | ['0'] => some s.name
  | ['$'] => some (Bytes.ofNat 100)
  | ['!'] => s.jobs.head?.map fun j => Bytes.ofNat j.number
  | ['-'] => some ("ubaCEVvxsnmiIfe".toList.filter s.options.contains)
  | _ =>
    match Bytes.nat? name with
    | some n => if n = 0 then some s.name else s.arguments[n - 1]?
    | none => if name = "LINENO".toList then some (Bytes.ofNat s.line) else s.valueOf? name

end State

namespace Eval

def attempt {α : Type} (e : Eval α) : Eval (Except Jump α) := ExceptT.lift e.run

def tool {α : Type} (w : Tool.Work α) : Eval α := do
  let act : Act α := w (← getThe State).process
  act

def complain (text : String) : Eval Unit := tool (Tool.Work.complain text)

def grumbleAs (text : String) : Eval Unit := do
  complain ((← getThe State).voice ++ text ++ "\n")

def grumble (text : String) : Eval Unit := do
  grumbleAs ((← getThe State).label ++ text)

/-- Runs commands on a copy of the state; only their status comes back. -/
def isolated (e : Eval Unit) : Eval Nat := do
  let s ← getThe State
  let act : Act (Except Jump Unit × State) := e.run.run s
  let (r, s) ← act
  match r with
  | .error (.exit n) | .error (.leave n) => return n
  | _ => return s.status

def detached (e : Eval Unit) : Eval Nat := do
  let s ← getThe State
  let act : Act (Except Halt (Except Jump Unit × State)) := ExceptT.lift (e.run.run s).run
  match ← act with
  | .ok (.error (.exit n), _) | .ok (.error (.leave n), _) => return n
  | .ok (_, s) => return s.status
  | .error .stopped => return 0

def withChannels {α : Type} (channels : List (Nat × Channel)) (e : Eval α) : Eval α := do
  let old := (← getThe State).channels
  modifyThe State fun s => { s with channels }
  let r ← attempt e
  modifyThe State fun s => { s with channels := old }
  match r with
  | .ok a => return a
  | .error j => throw j

def setStatus (n : Nat) : Eval Unit := modifyThe State fun s => { s with status := n }

def assign (label : String) (name value : Bytes) : Eval Unit := do
  let s ← getThe State
  if s.fixed.contains name then
    grumbleAs s!"{label}{Bytes.toString name}: is read only"
    throw (.exit 2)
  let s := s.setVariable name value
  set (σ := State) (if s.options.contains 'a' then { s with exported := name :: s.exported } else s)

end Eval

def putChannel (n : Nat) (p : Channel) (channels : List (Nat × Channel)) : List (Nat × Channel) :=
  (n, p) :: channels.filter (·.1 != n)

inductive Chunk where
  | text (quoted : Bool) (b : Bytes)
  | value (b : Bytes)
  | boundary

structure Fields where
  current : Option (List Glob.Sign)
  done : List (List Glob.Sign)

namespace Fields

def close (f : Fields) : Fields :=
  match f.current with
  | some signs => ⟨none, signs.reverse :: f.done⟩
  | none => f

def add (f : Fields) (quoted : Bool) (b : Bytes) : Fields :=
  { f with current := some (b.foldl (fun signs c => (c, quoted) :: signs) (f.current.getD [])) }

def addByte (separators : Bytes) (f : Fields) (c : Char) : Fields :=
  if separators.contains c then
    if Bytes.isBlank c then f.close else ({ f with current := some (f.current.getD []) }).close
  else { f with current := some ((c, false) :: f.current.getD []) }

def addChunk (separators : Bytes) (f : Fields) : Chunk → Fields
  | .text quoted b => if b.isEmpty && !quoted then f else f.add quoted b
  | .value b => b.foldl (addByte separators) f
  | .boundary => f.close

def ofChunks (separators : Bytes) (chunks : List Chunk) : List (List Glob.Sign) :=
  (chunks.foldl (addChunk separators) ⟨none, []⟩).close.done.reverse

end Fields

def joined (chunks : List Chunk) : Bytes :=
  chunks.flatMap fun c =>
    match c with
    | .text _ b | .value b => b
    | .boundary => [' ']

def patternOf (chunks : List Chunk) : List Glob.Sign :=
  chunks.flatMap fun c =>
    match c with
    | .text quoted b => b.map fun x => (x, quoted)
    | .value b => b.map fun x => (x, false)
    | .boundary => [(' ', false)]

def spread (quoted : Bool) (arguments : List Bytes) : List Chunk :=
  ((arguments.map fun a => if quoted then Chunk.text true a else .value a).intersperse .boundary)

def lengths (longest : Bool) (b : Bytes) : List Nat :=
  if longest then (List.range (b.length + 1)).reverse else List.range (b.length + 1)

def withoutFront (longest : Bool) (p : List Glob.Sign) (b : Bytes) : Bytes :=
  match (lengths longest b).find? fun n => Glob.isMatch p (b.take n) with
  | some n => b.drop n
  | none => b

def withoutBack (longest : Bool) (p : List Glob.Sign) (b : Bytes) : Bytes :=
  match (lengths (!longest) b).find? fun n => Glob.isMatch p (b.drop n) with
  | some n => b.take n
  | none => b

end ConstraintDesk.Shell
