import ConstraintDesk.Reasoner.Host
import ConstraintDesk.Shell.Run
/-! The machine as a host: its programs are its tools and its shell. A program runs when it is waited
for, and what it did before it was stopped remains. -/
namespace ConstraintDesk.Shell

open Machine

def base : Place := ["tmp".toList, "desk".toList]

def freshFiles : Files where
  entries := [(["dev".toList], .folder), (["dev".toList, "null".toList], .device []),
    (["dev".toList, "zero".toList], .device ['\x00']), (base.dropLast, .folder), (base, .folder),
    (base ++ ["file".toList], .file [])]
  isTree := by decide +kernel

def freshWorld : World where
  files := freshFiles
  streams := #[]
  sinks := #[]
  now := 0
  heldUntil := 0
  deadline := none

def folderPath (folder : String) : String :=
  Bytes.toString (Files.pathOf base) ++ "/" ++ folder

def entriesIn (path : String) (w : World) : Nat :=
  match w.files.locate base (Bytes.ofString path) with
  | .ok p => if w.files.isFolder p then (w.files.names p).length else 0
  | .error _ => 0

structure Program where
  path : Bytes
  args : List Bytes
  folder : Place

namespace Program

def fuel : Nat := 200000

def shell (p : Program) : State where
  folder := p.folder
  channels := [(0, .nothing), (1, .sink 0), (2, .sink 1)]
  bindings := [("PATH".toList, "/usr/local/bin:/usr/bin:/bin".toList), ("HOME".toList, ['/']),
    ("PWD".toList, Files.pathOf p.folder)]
  exported := ["PATH".toList, "HOME".toList, "PWD".toList]
  fixed := []
  functions := []
  name := "sh".toList
  label := ""
  arguments := []
  locals := none
  loops := 0
  status := 0
  outputStatus := none
  line := 0
  options := []
  farewell := none
  jobs := []

def refusal? (files : Files) (p : Program) : Option Refusal :=
  if (p.path :: p.args).any fun b => b.contains '\x00' then some .nullInProgram
  else if Builtin.isProgram p.path then none
  else if p.path = ['.'] || p.path = ['.', '.'] then some .notPermitted
  else if !p.path.contains '/' then some .noEntry
  else match files.locate p.folder p.path with
    | .error r => some r
    | .ok place => some (if (files.entry? place).isSome then .notPermitted else .noEntry)

def run (p : Program) : Act Nat := do
  let body : Eval Unit := do Eval.setStatus (← external fuel (.script "") p.path p.args)
  let (r, s) ← body.run.run p.shell
  match r with
  | .error (.exit n) | .error (.leave n) => return n
  | _ => return s.status

def written (w : World) (sink : Nat) : List UInt8 :=
  match w.sinks[sink]? with
  | some s => s.bytes.toList
  | none => []

def wait (p : Program) (limit : Option Nat) : StateM World Waiting := do
  modify fun w =>
    { w with
      streams := #[], sinks := #[⟨[], [], false⟩, ⟨[], [], false⟩], now := 0, heldUntil := 0
      deadline := limit.map (· * 1000) }
  if limit = some 0 then return .late
  let result ← p.run.run
  let w ← get
  match result with
  | .error .stopped => return .late
  | .ok status =>
    if limit.any (· * 1000 ≤ w.heldUntil) then return .late
    return .finished ⟨.exited status, written w 0, written w 1⟩

end Program

def changeAt (path : String) (f : Files → Bytes → Except Refusal Files) :
    StateM World (Except Refusal Unit) := do
  let b := Bytes.ofString path
  if b.contains '\x00' then return .error .nullInPath
  match f (← get).files b with
  | .error r => return .error r
  | .ok files =>
    modify fun w => { w with files }
    return .ok ()

def writeIn (content : List UInt8) (files : Files) (path : Bytes) : Except Refusal Files := do
  files.write (← files.locate base path) (Bytes.ofList content) false

def removeIn (files : Files) (path : Bytes) : Except Refusal Files := do
  let p ← files.locate base path
  if files.isFolder p then return files.remove p
  else throw (if (files.entry? p).isSome then .notFolder else .noEntry)

def runName : String := "8c2f41d7-5b0e-4e93-a6f8-1d97c3b2e054"

def machine : Host World Program where
  freshName := return runName
  makeFolder path := changeAt path (Files.makeFolders · base)
  writeFile path content := changeAt path (writeIn content)
  start program args folder := do
    match (← get).files.locate base (Bytes.ofString folder) with
    | .error r => return .error r
    | .ok place =>
      let p : Program := ⟨Bytes.ofString program, args.map Bytes.ofString, place⟩
      match p.refusal? (← get).files with
      | some r => return .error r
      | none => return .ok p
  wait := Program.wait
  removeFolder path := changeAt path removeIn

end ConstraintDesk.Shell
