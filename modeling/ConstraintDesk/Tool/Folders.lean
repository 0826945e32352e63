import ConstraintDesk.Machine.Glob
import ConstraintDesk.Tool.Work
/-! Tools that list and change files and folders, and that take paths apart. -/
namespace ConstraintDesk.Tool

open Machine

def baseOf (path : Bytes) : Bytes :=
  match (Files.parts path).getLast? with
  | some name => name
  | none => if path.isEmpty then [] else ['/']

def shown (path : Bytes) : String := Bytes.toString path

def unlinesOf (names : List Bytes) : Bytes := (names.map (· ++ ['\n'])).flatten

def listed (o : Options) (files : Files) (p : Place) : List Bytes :=
  let names := files.names p
  let mark (name : Bytes) : Bytes :=
    if (o.has 'p' || o.has 'F') && files.isFolder (p ++ [name]) then name ++ ['/'] else name
  let names := if o.has 'a' || o.has 'A' then names else names.filter fun n => n.head? != some '.'
  let names := (if o.has 'a' then [['.'], ['.', '.']] else []) ++ names.map mark
  if o.has 'r' then names.reverse else names

def ls (args : List Bytes) : Work Nat := do
  let o := Options.ofArgs "I" args
  let paths := if o.operands.isEmpty then [['.']] else o.operands.mergeSort Bytes.precedes
  let files := (← getThe World).files
  let places ← paths.mapM fun path => return (path, ← Work.locate path)
  let status ← Work.eachOf places fun (path, place) => do
    match place.bind fun p => (files.entry? p).elim (.error .noEntry) .ok with
    | .ok _ => return 0
    | .error r =>
      -- a folder that was removed is still there for those that are in it
      if o.operands.isEmpty then return 0
      Work.complain s!"ls: cannot access '{shown path}': {r.text}\n"
      return 2
  let found := places.filterMap fun (path, place) =>
    place.toOption.bind fun p => if (files.entry? p).isSome then some (path, p) else none
  let isFolder (x : Bytes × Place) : Bool := files.isFolder x.2 && !o.has 'd'
  let plain := (found.filter fun x => !isFolder x).map (·.1)
  Work.print (unlinesOf plain)
  let folders := found.filter isFolder
  let blocks := folders.map fun (path, p) =>
    (if 1 < paths.length then path ++ [':', '\n'] else []) ++ unlinesOf (listed o files p)
  let gap := if plain.isEmpty || folders.isEmpty then [] else ['\n']
  Work.print (gap ++ ['\n'].intercalate blocks)
  return status

def changeEach (paths : List Bytes) (f : Bytes → Files → Place → Except Refusal Files)
    (complaint : Bytes → Refusal → String) : Work Nat :=
  Work.eachOf paths fun path => do
    match ← Work.change (f path) path with
    | .ok () => return 0
    | .error r =>
      Work.complain (complaint path r)
      return 1

def mkdir (args : List Bytes) : Work Nat := do
  let o := Options.ofArgs "m" args
  let complaint (path : Bytes) (r : Refusal) : String :=
    s!"mkdir: cannot create directory '{shown path}': {r.text}\n"
  let along (path : Bytes) : Work Nat := do
    match (← getThe World).files.makeFolders (← read).folder path with
    | .ok files =>
      modifyThe World fun w => { w with files }
      return 0
    | .error r =>
      let files := (← getThe World).files
      let folder := (← read).folder
      let parts := (List.range (path.length + 1)).map path.take
      let isObstacle (part : Bytes) : Bool :=
        match files.locate folder part with
        | .ok p => (files.entry? p).isSome && !files.isFolder p
        | .error _ => false
      Work.complain (complaint ((parts.find? isObstacle).getD path) r)
      return 1
  if o.operands.isEmpty then missingOperand "mkdir"
  else if o.has 'p' then Work.eachOf o.operands along
  else changeEach o.operands (fun _ files p => files.makeFolder p) complaint

def removeEmpty (files : Files) (p : Place) : Except Refusal Files :=
  match files.entry? p with
  | none => .error .noEntry
  | some .folder => if (files.names p).isEmpty then .ok (files.remove p) else .error .notEmpty
  | some _ => .error .notFolder

def rmdir (args : List Bytes) : Work Nat :=
  changeEach (Options.ofArgs "" args).operands
    (fun path files p => if baseOf path = ['.'] then .error .invalid else removeEmpty files p)
    fun path r => s!"rmdir: failed to remove '{shown path}': {r.text}\n"

def endsInDots (path : Bytes) : Bool :=
  match (Files.parts path).getLast? with
  | some name => name = ['.'] || name = ['.', '.']
  | none => false

def rm (args : List Bytes) : Work Nat := do
  let o := Options.ofArgs "" args
  let deep := o.has 'r' || o.has 'R'
  let force := o.has 'f'
  if o.operands.isEmpty && !force then missingOperand "rm"
  else Work.eachOf o.operands fun path => do
    if deep && endsInDots path then
      Work.complain s!"rm: refusing to remove '.' or '..' directory: skipping '{shown path}'\n"
      return 1
    let remove (files : Files) (p : Place) : Except Refusal Files :=
      match files.entry? p with
      | none => if force then .ok files else .error .noEntry
      | some .folder =>
        if deep then .ok (files.remove p)
        else if o.has 'd' then removeEmpty files p else .error .isFolder
      | some _ => .ok (files.remove p)
    match ← Work.change remove path with
    | .ok () => return 0
    | .error r =>
      if force && (r = .noEntry || r = .notFolder) then return 0
      Work.complain s!"rm: cannot remove '{shown path}': {r.text}\n"
      return 1

def targetOf (files : Files) (source : Bytes) (target : Place) : Place :=
  if files.isFolder target then target ++ [baseOf source] else target

def copied (source target : Place) (files : Files) (x : Place × Entry) : Except Refusal Files :=
  let place := target ++ x.1.drop source.length
  match x.2 with
  | .folder => if files.isFolder place then .ok files else files.makeFolder place
  | .file content => files.write place content false
  | .device _ => .error .invalid

def copyEntry (files : Files) (deep : Bool) (p target : Place) : Except Refusal Files :=
  match files.entry? p with
  | none => .error .noEntry
  | some .folder =>
    if deep then
      let inner := files.entries.filter fun x => p.isPrefixOf x.1 && x.1 != p
      ((p, .folder) :: inner.mergeSort fun x y => x.1.length ≤ y.1.length).foldlM (copied p target) files
    else .error .isFolder
  | some (.device _) => .error .invalid
  | some (.file content) => files.write target content false

def moveEntry (files : Files) (p target : Place) : Except Refusal Files :=
  match files.entry? p with
  | none => .error .noEntry
  | some _ =>
    if p = target then .ok files
    else if outside : ¬ p <+: target then
      if target <+: p then .error .notEmpty
      else files.within target fun around => files.move outside around
    else .error .invalid

def transfer (tool : String) (paths : List Bytes)
    (f : Files → Place → Place → Except Refusal Files) (complaint : Bytes → Bytes → Refusal → String) :
    Work Nat := do
  match paths.getLast?, paths.dropLast with
  | some target, source :: more =>
    match ← Work.locate target with
    | .error r =>
      Work.complain s!"{tool}: cannot stat '{shown target}': {r.text}\n"
      return 1
    | .ok t =>
      let isFolder := (← getThe World).files.isFolder t
      let into (path : Bytes) : Bytes :=
        if isFolder then (target.reverse.dropWhile (· = '/')).reverse ++ '/' :: baseOf path else target
      changeEach (source :: more) (fun path files p => f files p (targetOf files path t))
        fun path => complaint path (into path)
  | some only, [] => misused tool s!"missing destination file operand after '{shown only}'"
  | none, _ => misused tool "missing file operand"

def cp (args : List Bytes) : Work Nat := do
  let o := Options.ofArgs "" args
  let deep := o.has 'r' || o.has 'R' || o.has 'a'
  transfer "cp" o.operands (fun files => copyEntry files deep) fun path _ r =>
    if r = .isFolder then s!"cp: -r not specified; omitting directory '{shown path}'\n"
    else s!"cp: cannot stat '{shown path}': {r.text}\n"

def mv (args : List Bytes) : Work Nat :=
  transfer "mv" (Options.ofArgs "" args).operands moveEntry fun path target r =>
    if r = .invalid then s!"mv: cannot move '{shown path}' to a subdirectory of itself, '{shown target}'\n"
    else if r = .notEmpty then s!"mv: cannot overwrite '{shown target}': {r.text}\n"
    else s!"mv: cannot stat '{shown path}': {r.text}\n"

def touch (args : List Bytes) : Work Nat := do
  let o := Options.ofArgs "dtr" args
  changeEach o.operands
    (fun _ files p =>
      if (files.entry? p).isSome || o.has 'c' then .ok files else files.write p [] false)
    fun path r => s!"touch: cannot touch '{shown path}': {r.text}\n"

def chmod (args : List Bytes) : Work Nat :=
  let operands := match args with
    | ('-' :: 'R' :: []) :: rest => rest
    | _ => args
  changeEach operands.tail
    (fun _ files p => if (files.entry? p).isSome then .ok files else .error .noEntry)
    fun path r => s!"chmod: cannot access '{shown path}': {r.text}\n"

def basename (args : List Bytes) : Work Nat := do
  let o := Options.read ['s'] false none args
  let strip (ending name : Bytes) : Bytes :=
    if name != ending && ending.isSuffixOf name then name.take (name.length - ending.length) else name
  let (paths, ending) := match o.operands, o.value? 's' with
    | [path, ending], none => if o.has 'a' then ([path, ending], []) else ([path], ending)
    | paths, ending => (paths, ending.getD [])
  if paths.isEmpty then missingOperand "basename"
  else
    Work.print (unlinesOf (paths.map fun path => strip ending (baseOf path)))
    return 0

def folderOf (path : Bytes) : Bytes :=
  let trimmed := (path.reverse.dropWhile (· = '/')).dropWhile (· ≠ '/')
  let rest := (trimmed.dropWhile (· = '/')).reverse
  if !rest.isEmpty then rest else if path.head? = some '/' then ['/'] else ['.']

def dirname (args : List Bytes) : Work Nat := do
  let o := Options.ofArgs "" args
  if o.operands.isEmpty then missingOperand "dirname"
  else
    Work.print (unlinesOf (o.operands.map folderOf))
    return 0

def below (files : Files) (p : Place) : List Place :=
  p :: ((files.entries.map (·.1)).filter fun q => q != p && p.isPrefixOf q)

def isNamed (pattern name : Bytes) : Bool := Glob.isMatch (pattern.map fun c => (c, false)) name

def find (args : List Bytes) : Work Nat := do
  let paths := args.takeWhile fun a => a.head? != some '-'
  let paths := if paths.isEmpty then [['.']] else paths
  let tests := args.dropWhile fun a => a.head? != some '-'
  let files := (← getThe World).files
  let value? (name : String) : Option Bytes :=
    (tests.zip tests.tail).findSome? fun (a, b) => if a = name.toList then some b else none
  let keeps (name : Bytes) (p : Place) : Bool :=
    ((value? "-name").all fun pattern => isNamed pattern name) &&
      match value? "-type" with
      | some ['f'] => files.isFile p
      | some ['d'] => files.isFolder p
      | _ => true
  Work.eachOf paths fun path => do
    match ← Work.locate path with
    | .ok p =>
      if (files.entry? p).isSome then
        let depth (q : Place) : Nat := q.length - p.length
        let least := ((value? "-mindepth").bind Bytes.nat?).getD 0
        let most := (value? "-maxdepth").bind Bytes.nat?
        let name (q : Place) : Bytes := if q = p then baseOf path else (q.getLast?).getD []
        let found := (below files p).filter fun q =>
          keeps (name q) q && least ≤ depth q && most.all (depth q ≤ ·)
        Work.print (unlinesOf (found.map fun q =>
          path ++ (q.drop p.length).flatMap fun name => '/' :: name))
        return 0
      else
        Work.complain s!"find: '{shown path}': No such file or directory\n"
        return 1
    | .error r =>
      Work.complain s!"find: '{shown path}': {r.text}\n"
      return 1

end ConstraintDesk.Tool
