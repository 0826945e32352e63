import ConstraintDesk.Shell.Reader
import ConstraintDesk.Shell.State
import ConstraintDesk.Tool.Table
/-! Commands that a script does by itself and that run no other commands. -/
namespace ConstraintDesk.Shell.Builtin

open Machine

def splitAssignment (b : Bytes) : Bytes × Option Bytes :=
  let name := b.takeWhile (· ≠ '=')
  match b.drop name.length with
  | _ :: r => (name, some r)
  | [] => (name, none)

def cd (args : List Bytes) : Eval Nat := do
  let s ← getThe State
  let target := match args with
    | [] => (s.valueOf? "HOME".toList).getD ['/']
    | ['-'] :: _ => (s.valueOf? "OLDPWD".toList).getD (Files.pathOf s.folder)
    | a :: _ => a
  let files := (← getThe World).files
  match files.locate s.folder target with
  | .ok p =>
    if files.isFolder p then
      modifyThe State fun s =>
        ({ s with folder := p }.setVariable "OLDPWD".toList (Files.pathOf s.folder)).setVariable
          "PWD".toList (Files.pathOf p)
      if args.head? = some ['-'] then Eval.tool (Tool.Work.print (Files.pathOf p ++ ['\n']))
      return 0
    else
      Eval.grumbleAs s!"cd: can't cd to {Bytes.toString target}"
      return 2
  | .error _ =>
    Eval.grumbleAs s!"cd: can't cd to {Bytes.toString target}"
    return 2

def exportAll (args : List Bytes) : Eval Nat := do
  args.forM fun a => do
    let (name, value) := splitAssignment a
    value.toList.forM (Eval.assign "export: " name)
    modifyThe State fun s =>
      { s with exported := if s.exported.contains name then s.exported else name :: s.exported }
  return 0

def fix (args : List Bytes) : Eval Nat := do
  args.forM fun a => do
    let (name, value) := splitAssignment a
    value.toList.forM (Eval.assign "readonly: " name)
    modifyThe State fun s => { s with fixed := name :: s.fixed }
  return 0

def declare (args : List Bytes) : Eval Nat := do
  if (← getThe State).locals.isNone then
    Eval.grumbleAs "local: not in a function"
    throw (.exit 2)
  args.forM fun a => do
    let (name, value) := splitAssignment a
    modifyThe State fun s => { s with locals := s.locals.map ((name, s.valueOf? name) :: ·) }
    value.toList.forM (Eval.assign "local: " name)
  return 0

def restore (locals : List (Bytes × Option Bytes)) (s : State) : State :=
  locals.foldl (fun s (name, value) =>
    match value with
    | some v => s.setVariable name v
    | none => s.unset name) s

def unset (args : List Bytes) : Eval Nat := do
  match args with
  | ['-', 'f'] :: names =>
    modifyThe State fun s =>
      { s with functions := s.functions.filter fun f => !names.contains f.1 }
  | _ =>
    let names := if args.head? = some ['-', 'v'] then args.tail else args
    names.forM fun name => do
      if (← getThe State).fixed.contains name then
        Eval.grumbleAs s!"unset: {Bytes.toString name}: is read only"
        throw (.exit 2)
      modifyThe State fun s => s.unset name
  return 0

def optionLetters : Bytes := "efIimnsxvVECabu".toList

def optionNames : List (String × Char) :=
  [("errexit", 'e'), ("noglob", 'f'), ("ignoreeof", 'I'), ("interactive", 'i'), ("monitor", 'm'),
   ("noexec", 'n'), ("stdin", 's'), ("xtrace", 'x'), ("verbose", 'v'), ("vi", 'V'), ("emacs", 'E'),
   ("noclobber", 'C'), ("allexport", 'a'), ("notify", 'b'), ("nounset", 'u')]

structure Given where
  options : List Char
  operands : List Bytes
  replaces : Bool

def switch (on : Bool) (letters : Bytes) (options : List Char) : List Char :=
  if on then letters ++ options else options.filter fun c => !letters.contains c

def given (more : Bytes) (options : List Char) : List Bytes → Except String Given
  | [] => .ok ⟨options, [], false⟩
  | ['-', '-'] :: rest => .ok ⟨options, rest, true⟩
  | ['-'] :: rest => .ok ⟨switch false ['x', 'v'] options, rest, !rest.isEmpty⟩
  | a :: rest =>
    let on := a.head? = some '-'
    let letters := a.tail.filter (· ≠ 'o')
    if !on && a.head? != some '+' then .ok ⟨options, a :: rest, true⟩
    else match letters.find? fun c => !optionLetters.contains c && !more.contains c with
      | some c => .error s!"Illegal option -{c}"
      | none =>
        let options := switch on letters options
        if a.tail.contains 'o' then
          match rest with
          | [] => .ok ⟨options, [], false⟩
          | name :: rest =>
            match optionNames.lookup (String.ofList name) with
            | some c => given more (switch on [c] options) rest
            | none => .error s!"Illegal option -o {Bytes.toString name}"
        else given more options rest

def set (args : List Bytes) : Eval Nat := do
  match given [] (← getThe State).options args with
  | .error text =>
    Eval.grumbleAs s!"set: {text}"
    throw (.exit 2)
  | .ok g =>
    modifyThe State fun s =>
      { s with options := g.options, arguments := if g.replaces then g.operands else s.arguments }
    return 0

def number (command : String) (other : Nat) (args : List Bytes) : Eval Nat := do
  match args with
  | [] => return other
  | a :: _ =>
    match Bytes.nat? a with
    | some n => return n
    | none =>
      Eval.grumbleAs s!"{command}: Illegal number: {Bytes.toString a}"
      throw (.exit 2)

def shift (args : List Bytes) : Eval Nat := do
  let n ← number "shift" 1 args
  if (← getThe State).arguments.length < n then
    Eval.grumbleAs "shift: can't shift that many"
    throw (.exit 2)
  modifyThe State fun s => { s with arguments := s.arguments.drop n }
  return 0

def share (separators : Bytes) (line : Bytes) : List Bytes → List (Bytes × Bytes)
  | [] => []
  | [name] => [(name, (line.reverse.dropWhile separators.contains).reverse)]
  | name :: more =>
    let word := line.takeWhile fun c => !separators.contains c
    let rest := (line.drop word.length).dropWhile separators.contains
    (name, word) :: share separators rest more

def read (args : List Bytes) : Eval Nat := do
  let o := Tool.Options.read ['p'] false none args
  let s ← getThe State
  match s.channels.lookup 0 with
  | none => return 1
  | some channel =>
    let action : Act Bytes := Act.takeLine channel
    let full ← action
    let line := if full.getLast? = some '\n' then full.dropLast else full
    let line := if o.has 'r' then line else line.filter (· ≠ '\\')
    let names := if o.operands.isEmpty then ["REPLY".toList] else o.operands
    (share s.separators (line.dropWhile s.separators.contains) names).forM fun (name, v) =>
      Eval.assign "read: " name v
    return if full.getLast? = some '\n' then 0 else 1

def trap (args : List Bytes) : Eval Nat := do
  match args with
  | action :: conditions =>
    if conditions.contains "EXIT".toList || conditions.contains ['0'] then
      modifyThe State fun s => { s with farewell := if action = ['-'] then none else some action }
  | [] => return 0
  return 0

def wait (args : List Bytes) : Eval Nat := do
  let sleepTo (finish : Nat) : Eval Unit := do
    let now := (← getThe World).now
    let action : Act Unit := Act.sleep (finish - now)
    action
  let jobs := (← getThe State).jobs
  if args.isEmpty then
    sleepTo ((jobs.map (·.finish)).foldl max 0)
    return 0
  args.foldlM (fun _ a => do
    match jobs.find? fun j => Bytes.nat? a = some j.number with
    | some j =>
      sleepTo j.finish
      return j.status
    | none =>
      if (Bytes.nat? a).isNone then
        Eval.grumbleAs s!"wait: Illegal number: {Bytes.toString a}"
        throw (.exit 2)
      return 127) 0

def signal? (b : Bytes) : Option Nat :=
  (Bytes.nat? b).or ([("HUP", 1), ("INT", 2), ("QUIT", 3), ("KILL", 9), ("USR1", 10), ("USR2", 12),
    ("PIPE", 13), ("ALRM", 14), ("TERM", 15)].lookup (String.ofList b))

def endJob (number signal : Nat) : Eval Unit := do
  let now := (← getThe World).now
  let jobs := (← getThe State).jobs
  jobs.forM fun j => do
    if j.number = number && now < j.finish && signal != 0 then
      modifyThe World fun w => if w.heldUntil = j.finish then { w with heldUntil := now } else w
  let ended (j : Job) : Job :=
    if j.number = number && now < j.finish then ⟨number, 128 + signal, now⟩ else j
  if signal != 0 then modifyThe State fun s => { s with jobs := jobs.map ended }

def kill (args : List Bytes) : Eval Nat := do
  let (signal, operands) := match args with
    | ['-', 's'] :: name :: rest => ((signal? name).getD 15, rest)
    | ('-' :: name) :: rest => ((signal? name).getD 15, rest)
    | rest => (15, rest)
  operands.foldlM (fun status a => do
    let number := (Bytes.nat? a).getD 0
    let isJob := (← getThe State).jobs.any (·.number = number)
    if isJob then
      endJob number signal
      return status
    else if Bytes.ofNat number = ((← getThe State).parameter? ['$']).getD [] then return status
    else
      Eval.grumbleAs "kill: No such process"
      return 1) 0

def leaveLoops (command : String) (jump : Nat → Jump) (args : List Bytes) : Eval Nat := do
  let n ← number command 1 args
  let loops := (← getThe State).loops
  if loops = 0 then return 0
  throw (jump (min n loops))

def names : List String :=
  [":", ".", "[", "break", "cd", "command", "continue", "echo", "eval", "exec", "exit", "export",
   "false", "hash", "kill", "local", "printf", "pwd", "read", "readonly", "return", "set", "shift",
   "test", "trap", "true", "type", "umask", "unset", "wait"]

def isSpecial (name : String) : Bool :=
  [":", ".", "break", "continue", "eval", "exec", "exit", "export", "readonly", "return", "set",
   "shift", "trap", "unset"].contains name

def programFolders : List String := ["/bin/", "/usr/bin/", "/usr/local/bin/"]

def programName (path : Bytes) : Bytes :=
  (programFolders.findSome? fun f =>
    if f.toList.isPrefixOf path then some (path.drop f.length) else none).getD path

def runners : List String := ["sh", "dash", "env", "timeout", "xargs"]

def isProgram (path : Bytes) : Bool :=
  let name := programName path
  runners.contains (String.ofList name) || (Tool.find? name).isSome

def locate (s : State) (name : Bytes) : Option Bytes :=
  if s.functions.any (·.1 = name) || names.contains (String.ofList name) then some name
  else if isProgram name then some (if name.contains '/' then name else "/usr/bin/".toList ++ name)
  else none

def isKeyword (name : Bytes) : Bool := keywords.contains (String.ofList name)

def sayPlace (name : Bytes) : Eval Nat := do
  let s ← getThe State
  match if isKeyword name then some name else locate s name with
  | some path =>
    Eval.tool (Tool.Work.print (path ++ ['\n']))
    return 0
  | none => return 127

def describe (args : List Bytes) : Eval Nat := do
  let s ← getThe State
  let kind (name : Bytes) : String :=
    if isKeyword name then "is a shell keyword"
    else if s.functions.any (·.1 = name) then "is a shell function"
    else if isSpecial (String.ofList name) then "is a special shell builtin"
    else if names.contains (String.ofList name) then "is a shell builtin"
    else match locate s name with
      | some path => s!"is {Bytes.toString path}"
      | none => "not found"
  let line (name : Bytes) : Bytes :=
    let joint := if isKeyword name || (locate s name).isSome then [' '] else [':', ' ']
    name ++ joint ++ Bytes.ofString (kind name) ++ ['\n']
  Eval.tool (Tool.Work.print (args.map line).flatten)
  return if args.all fun name => isKeyword name || (locate s name).isSome then 0 else 127

def find? (name : Bytes) : Option (List Bytes → Eval Nat) :=
  match String.ofList name with
  | ":" | "true" => some fun _ => return 0
  | "false" => some fun _ => return 1
  | "cd" => some cd
  | "echo" => some fun args => Eval.tool (Tool.echo args)
  | "printf" => some fun args => Eval.tool (Tool.printf args)
  | "test" => some fun args => Eval.tool (Tool.test "test" args)
  | "[" => some fun args => Eval.tool (Tool.test "[" args)
  | "pwd" => some fun _ => Eval.tool Tool.pwd
  | "read" => some read
  | "export" => some exportAll
  | "readonly" => some fix
  | "local" => some declare
  | "unset" => some unset
  | "set" => some set
  | "shift" => some shift
  | "trap" => some trap
  | "wait" => some wait
  | "umask" => some fun args => do
    if args.isEmpty then Eval.tool (Tool.Work.print "0022\n".toList)
    return 0
  | "hash" => some fun _ => return 0
  | "exit" => some fun args => do
    throw (.exit ((← number "exit" (← getThe State).status args) % 256))
  | "return" => some fun args => do
    throw (.leave ((← number "return" (← getThe State).status args) % 256))
  | "break" => some (leaveLoops "break" .breakLoop)
  | "continue" => some (leaveLoops "continue" .nextLoop)
  | "kill" => some kill
  | "type" => some describe
  | _ => none

end ConstraintDesk.Shell.Builtin
