import ConstraintDesk.Shell.Arithmetic
import ConstraintDesk.Shell.Builtin
/-! Running scripts. The fuel bounds how deep commands nest and how often loops turn; a script that uses
it up counts as one that does not end. -/
namespace ConstraintDesk.Shell

open Machine

def openText (making : Bool) : Refusal → String
  | .noEntry => if making then "Directory nonexistent" else "No such file"
  | .notFolder => if making then "Directory nonexistent" else "No such file"
  | r => r.text

def openFile (d : Direction) (path : Bytes) : Eval (Except Refusal Channel) := do
  let s ← getThe State
  let files := (← getThe World).files
  if path = "/dev/stdout".toList then return (s.channels.lookup 1).elim (.error .noEntry) .ok
  if path = "/dev/stderr".toList then return (s.channels.lookup 2).elim (.error .noEntry) .ok
  if path = "/dev/stdin".toList then return (s.channels.lookup 0).elim (.error .noEntry) .ok
  match files.locate s.folder path with
  | .error r => return .error r
  | .ok p =>
    match files.entry? p, d with
    | some (.device cycle), .input =>
      let action : Act Channel := Act.openStream ⟨[], cycle, none⟩
      return .ok (← action)
    | some (.device _), _ => return .ok .nothing
    | _, .input =>
      match files.read p with
      | .error r => return .error r
      | .ok b =>
        let action : Act Channel := Act.openStream ⟨b, [], some b.length⟩
        return .ok (← action)
    | _, _ =>
      match files.write p [] (d = .append) with
      | .error r => return .error r
      | .ok files =>
        modifyThe World fun w => { w with files }
        return .ok (.file p)

def printed (sink : Nat) : Eval Bytes := do
  let action : Act Sink := Act.sinkAt sink
  let b := (← action).bytes.filter (· ≠ '\x00')
  return (b.reverse.dropWhile (· = '\n')).reverse

def holdsOutput : Command → Bool
  | .simple _ _ _ rs | .redirected _ rs => !(rs.any (·.channel = 1) && rs.any (·.channel = 2))
  | _ => true

def landing : Jump → Except Jump Bool
  | .breakLoop n => if n ≤ 1 then .ok false else .error (.breakLoop (n - 1))
  | .nextLoop n => if n ≤ 1 then .ok true else .error (.nextLoop (n - 1))
  | j => .error j

def trace (channel : Option Channel) (assignments words : List Bytes) : Eval Unit := do
  let s ← getThe State
  match s.options.contains 'x', channel with
  | true, some channel =>
    let mark := (s.valueOf? "PS4".toList).getD "+ ".toList
    let action : Act (Except Refusal Unit) :=
      Act.write channel (mark ++ [' '].intercalate (assignments ++ words) ++ ['\n'])
    let _ ← action
  | _, _ => return ()

inductive Starter where
  | script (label : String)
  | env
  | xargs
  | timeout

def Starter.complain (starter : Starter) (path : Bytes) (isThere : Bool) : Eval Unit :=
  let name := Bytes.toString path
  let text := if isThere then Refusal.notPermitted.text else Refusal.noEntry.text
  match starter with
  | .script label => Eval.grumbleAs (label ++ name ++ ": " ++ (if isThere then text else "not found"))
  | .env => Eval.complain s!"env: '{name}': {text}\n"
  | .xargs => Eval.complain s!"xargs: {name}: {text}\n"
  | .timeout => Eval.complain s!"timeout: failed to run command '{name}': {text}\n"

def loosen : Chunk → Chunk
  | .text false b => .value b
  | c => c

def usesValue : Modifier → Bool
  | .plain | .length | .withoutFront _ | .withoutBack _ => true
  | _ => false

mutual

def chunks (fuel : Nat) (w : Word) : Eval (List Chunk) := do
  match fuel with
  | 0 => Act.stop (α := List Chunk)
  | fuel + 1 =>
    let parts ← w.mapM fun p => chunksOf fuel p
    return parts.flatten

def chunksOf (fuel : Nat) (p : Piece) : Eval (List Chunk) := do
  match fuel with
  | 0 => Act.stop (α := List Chunk)
  | fuel + 1 =>
    let one (quoted : Bool) (b : Bytes) : List Chunk := [if quoted then .text true b else .value b]
    match p with
    | .text quoted b => return [.text quoted b]
    | .output quoted script => return one quoted (← outputOf fuel script)
    | .arithmetic quoted e =>
      let text := joined (← chunks fuel e)
      match Arithmetic.evaluate (← getThe State).bindings text with
      | .ok (i, bindings) =>
        modifyThe State fun s => { s with bindings }
        return one quoted (Bytes.ofInt i)
      | .error fault =>
        Eval.grumble (fault.message (Bytes.toString text))
        throw (.exit 2)
    | .parameter quoted name m argument => parameter fuel quoted name m argument

def parameter (fuel : Nat) (quoted : Bool) (name : Bytes) (m : Modifier) (argument : Word) :
    Eval (List Chunk) := do
  match fuel with
  | 0 => Act.stop (α := List Chunk)
  | fuel + 1 =>
    let s ← getThe State
    let all := name = ['@'] || name = ['*']
    let value? : Option Bytes :=
      if all then (if s.arguments.isEmpty then none else some s.joinedArguments)
      else s.parameter? name
    let value := value?.getD []
    let one (b : Bytes) : List Chunk := [if quoted then .text true b else .value b]
    let plain : List Chunk :=
      if name = ['@'] || (all && !quoted) then spread quoted s.arguments else one value
    let lacks (unsetOnly : Bool) : Bool := value?.isNone || (!unsetOnly && value.isEmpty)
    if usesValue m && !all && value?.isNone && s.options.contains 'u' then
      Eval.grumble s!"{Bytes.toString name}: parameter not set"
      throw (.exit 2)
    match m with
    | .plain => return plain
    | .length => return one (Bytes.ofNat (if all then s.arguments.length else value.length))
    | .default u => if lacks u then return (← chunks fuel argument).map loosen else return plain
    | .alternative u => if lacks u then return [] else return (← chunks fuel argument).map loosen
    | .assigned u =>
      if lacks u then
        let b := joined (← chunks fuel argument)
        Eval.assign "" name b
        return one b
      else return plain
    | .required u =>
      if lacks u then
        let b := joined (← chunks fuel argument)
        let text := if !b.isEmpty then Bytes.toString b
          else if u then "parameter not set" else "parameter not set or null"
        Eval.grumble s!"{Bytes.toString name}: {text}"
        throw (.exit 2)
      else return plain
    | .withoutFront longest =>
      return one (withoutFront longest (patternOf (← chunks fuel argument)) value)
    | .withoutBack longest =>
      return one (withoutBack longest (patternOf (← chunks fuel argument)) value)
    | .unknown =>
      Eval.grumble "Bad substitution"
      throw (.exit 2)

def outputOf (fuel : Nat) (script : Command) : Eval Bytes := do
  match fuel with
  | 0 => Act.stop (α := Bytes)
  | fuel + 1 =>
    let action : Act Nat := Act.openSink false
    let sink ← action
    let status ← Eval.isolated do
      modifyThe State fun s => { s with channels := putChannel 1 (.sink sink) s.channels, farewell := none }
      match script with
      | .nothing => Eval.setStatus 0
      | c => withFarewell fuel (run fuel false c)
    modifyThe State fun s => { s with outputStatus := some status }
    printed sink

def fields (fuel : Nat) (words : List Word) : Eval (List Bytes) := do
  match fuel with
  | 0 => Act.stop (α := List Bytes)
  | fuel + 1 =>
    let parts ← words.mapM fun w => do
      let cs ← chunks fuel w
      let s ← getThe State
      let files := (← getThe World).files
      let found := Fields.ofChunks s.separators cs
      return if s.options.contains 'f' then found.map (·.map (·.1))
        else found.flatMap (Glob.expand files s.folder)
    return parts.flatten

def redirect (fuel : Nat) (r : Redirection Word) : Eval (Except String Unit) := do
  match fuel with
  | 0 => Act.stop (α := Except String Unit)
  | fuel + 1 =>
    let put (p : Channel) : Eval (Except String Unit) := do
      modifyThe State fun s => { s with channels := putChannel r.channel p s.channels }
      return .ok ()
    match r.source with
    | .document text =>
      let b := joined (← chunks fuel text)
      let action : Act Channel := Act.openStream (.ofBytes b)
      put (← action)
    | .channel w =>
      let b := joined (← chunks fuel w)
      if b = ['-'] then
        modifyThe State fun s => { s with channels := s.channels.filter (·.1 != r.channel) }
        return .ok ()
      let channels := (← getThe State).channels
      match (Bytes.nat? b).bind fun n => channels.lookup n with
      | some p => put p
      | none => return .error s!"{Bytes.toString b}: Bad file descriptor"
    | .file w =>
      let path := joined (← chunks fuel w)
      match ← openFile r.direction path with
      | .ok p => put p
      | .error refusal =>
        let making := r.direction != .input
        let verb := if making then "create" else "open"
        return .error s!"cannot {verb} {Bytes.toString path}: {openText making refusal}"

def redirectAll (fuel : Nat) : List (Redirection Word) → Eval Bool
  | [] => return true
  | r :: rest => do
    match fuel with
    | 0 => Act.stop (α := Bool)
    | fuel + 1 =>
      match ← redirect fuel r with
      | .ok () => redirectAll fuel rest
      | .error text =>
        Eval.grumble text
        return false

def assignAll (fuel : Nat) : List (Bytes × Word) → Eval (List Bytes)
  | [] => return []
  | (name, w) :: rest => do
    match fuel with
    | 0 => Act.stop (α := List Bytes)
    | fuel + 1 =>
      let b := joined (← chunks fuel w)
      Eval.assign "" name b
      return (name ++ '=' :: b) :: (← assignAll fuel rest)

def labelled (fuel : Nat) (label : String) (tested : Bool) (script : Bytes) : Eval Unit := do
  match fuel with
  | 0 => Act.stop (α := Unit)
  | fuel + 1 =>
    let old := (← getThe State).label
    modifyThe State fun s => { s with label }
    let r ← Eval.attempt (evaluate fuel tested script)
    modifyThe State fun s => { s with label := old }
    match r with
    | .ok () => return ()
    | .error j => throw j

def call (fuel : Nat) (tested : Bool) (args : List Bytes) (body : Command) : Eval Nat := do
  match fuel with
  | 0 => Act.stop (α := Nat)
  | fuel + 1 =>
    let s ← getThe State
    modifyThe State fun s => { s with arguments := args, locals := some [], loops := 0 }
    let r ← Eval.attempt (run fuel tested body)
    modifyThe State fun t =>
      { Builtin.restore (t.locals.getD []) t with
        arguments := s.arguments, locals := s.locals, loops := s.loops }
    match r with
    | .ok () => return (← getThe State).status
    | .error (.leave n) => return n
    | .error j => throw j

def invoke (fuel : Nat) (tested : Bool) (name : Bytes) (args : List Bytes) : Eval Nat := do
  match fuel with
  | 0 => Act.stop (α := Nat)
  | fuel + 1 =>
    match (← getThe State).functions.lookup name with
    | some body => call fuel tested args body
    | none =>
      match String.ofList name with
      | "eval" =>
        labelled fuel "eval: " tested ([' '].intercalate args)
        return (← getThe State).status
      | "." =>
        match args.head? with
        | none => return 0
        | some path =>
          if !path.contains '/' then
            Eval.grumbleAs s!".: {Bytes.toString path}: not found"
            throw (.exit 2)
          match ← Eval.tool (Tool.Work.source path) with
          | .ok stream =>
            match ← Eval.attempt (labelled fuel s!"{Bytes.toString path}: " false stream.ready) with
            | .ok () => return (← getThe State).status
            | .error (.leave n) => return n
            | .error j => throw j
          | .error r =>
            Eval.grumbleAs s!".: cannot open {Bytes.toString path}: {openText false r}"
            throw (.exit 2)
      | "exec" =>
        match args with
        | [] => return 0
        | n :: rest =>
          let status ← external fuel (.script "exec: ") n rest
          throw (.exit status)
      | "command" =>
        match args with
        | ['-', 'v'] :: n :: _ => Builtin.sayPlace n
        | n :: rest =>
          match Builtin.find? n with
          | some f => f rest
          | none =>
            if Builtin.isProgram n then external fuel (.script (← getThe State).label) n rest
            else withoutFunctions fuel tested n rest
        | [] => return 0
      | _ =>
        match Builtin.find? name with
        | some f => f args
        | none => external fuel (.script (← getThe State).label) name args

def withoutFunctions (fuel : Nat) (tested : Bool) (name : Bytes) (args : List Bytes) : Eval Nat := do
  match fuel with
  | 0 => Act.stop (α := Nat)
  | fuel + 1 =>
    let functions := (← getThe State).functions
    modifyThe State fun s => { s with functions := functions.filter (·.1 != name) }
    let r ← Eval.attempt (invoke fuel tested name args)
    modifyThe State fun s => { s with functions }
    match r with
    | .ok n => return n
    | .error j => throw j

def external (fuel : Nat) (starter : Starter) (path : Bytes) (args : List Bytes) : Eval Nat := do
  match fuel with
  | 0 => Act.stop (α := Nat)
  | fuel + 1 =>
    let name := Builtin.programName path
    match String.ofList name with
    | "sh" => shell fuel args
    | "dash" => shell fuel args
    | "env" =>
      let bare := args.head? = some ['-', 'i']
      let args := if bare then args.tail else args
      let assignments := (args.map Builtin.splitAssignment).takeWhile fun x => x.2.isSome
      let rest := args.drop assignments.length
      let exported (s : State) : State :=
        let s := if bare then { s with exported := [] } else s
        assignments.foldl (fun s x =>
          { s.setVariable x.1 (x.2.getD []) with exported := s.exported ++ [x.1] }) s
      Eval.isolated do
        modifyThe State exported
        match rest with
        | [] => Eval.setStatus (← Eval.tool (Tool.printEnvironment []))
        | n :: rest => Eval.setStatus (← external fuel .env n rest)
    | "timeout" =>
      match args with
      | limit :: n :: rest =>
        match Tool.micros? limit with
        | some micros => limited fuel micros n rest
        | none => Eval.tool (do
          let _ ← Tool.misused "timeout" s!"invalid time interval '{Bytes.toString limit}'"
          return 125)
      | _ => Eval.tool (do
        let _ ← Tool.missingOperand "timeout"
        return 125)
    | "xargs" =>
      let input ← Eval.tool (do Tool.Work.finite (← Tool.Work.input))
      let o := Tool.Options.read ['n', 'I', 'd'] false none args
      let command := if o.operands.isEmpty then ["echo".toList] else o.operands
      let commands := match o.value? 'I', (o.value? 'n').bind Bytes.nat? with
        | some mark, _ => (Bytes.lines input).map fun line =>
          command.map (Tool.replaceAll mark (line.dropWhile Bytes.isBlank))
        | none, some n => (Tool.piecesOf (max n 1) (Bytes.words input)).map (command ++ ·)
        | none, none =>
          let words := Bytes.words input
          if o.has 'r' && words.isEmpty then [] else [command ++ words]
      oneByOne fuel 0 commands
    | _ =>
      match Tool.find? name with
      | some t => Eval.tool (t args)
      | none =>
        let isThere ← Eval.tool (do
          match ← Tool.Work.locate path with
          | .ok p => return ((← getThe World).files.entry? p).isSome && path.contains '/'
          | .error _ => return false)
        starter.complain path isThere
        return if isThere then 126 else 127

def limited (fuel micros : Nat) (path : Bytes) (args : List Bytes) : Eval Nat := do
  match fuel with
  | 0 => Act.stop (α := Nat)
  | fuel + 1 =>
    let w ← getThe World
    let limit := w.now + micros
    if micros = 0 || w.deadline.any (· ≤ limit) then external fuel .timeout path args
    else
      modifyThe World fun w => { w with deadline := some limit }
      let status ← Eval.detached do Eval.setStatus (← external fuel .timeout path args)
      let finish := (← getThe World).now
      modifyThe World fun v => { v with now := min finish limit, deadline := w.deadline }
      return if limit ≤ finish then 124 else status

def oneByOne (fuel status : Nat) : List (List Bytes) → Eval Nat
  | [] => return status
  | [] :: _ => return status
  | (name :: args) :: rest => do
    match fuel with
    | 0 => Act.stop (α := Nat)
    | fuel + 1 =>
      let own ← external fuel .xargs name args
      if own = 126 || own = 127 then return own
      else oneByOne fuel (if own = 0 then status else 123) rest

def shell (fuel : Nat) (args : List Bytes) : Eval Nat := do
  match fuel with
  | 0 => Act.stop (α := Nat)
  | fuel + 1 =>
    match Builtin.given ['c'] [] args with
    | .error text =>
      Eval.complain s!"sh: 0: {text}\n"
      return 2
    | .ok g =>
      let start (name script : Bytes) (arguments : List Bytes) : Eval Nat :=
        Eval.isolated do
          modifyThe State fun s =>
            { s with
              bindings := s.environment, fixed := [], functions := [], name, label := "", arguments
              locals := none, loops := 0, status := 0, line := 1, options := g.options.filter (· ≠ 'c')
              farewell := none, jobs := [] }
          withFarewell fuel (evaluate fuel false script)
      match g.options.contains 'c', g.operands with
      | true, script :: rest => start (rest.head?.getD "sh".toList) script rest.tail
      | true, [] =>
        Eval.complain "sh: 0: -c requires an argument\n"
        return 2
      | false, path :: rest =>
        match ← Eval.tool (Tool.Work.source path) with
        | .ok stream => start path stream.ready rest
        | .error r =>
          Eval.complain s!"sh: 0: cannot open {Bytes.toString path}: {openText false r}\n"
          return if r = .noEntry || r = .notFolder then 2 else 126
      | false, [] =>
        let script ← Eval.tool (do Tool.Work.finite (← Tool.Work.input))
        start "sh".toList script []

def withFarewell (fuel : Nat) (body : Eval Unit) : Eval Unit := do
  match fuel with
  | 0 => Act.stop (α := Unit)
  | fuel + 1 =>
    let status ← match ← Eval.attempt body with
      | .error (.exit n) | .error (.leave n) => pure n
      | _ => pure (← getThe State).status
    Eval.setStatus status
    match (← getThe State).farewell with
    | some action =>
      modifyThe State fun s => { s with farewell := none, label := "" }
      evaluate fuel false action
      Eval.setStatus status
    | none => return ()

def evaluate (fuel : Nat) (tested : Bool) (script : Bytes) : Eval Unit := do
  match fuel with
  | 0 => Act.stop (α := Unit)
  | fuel + 1 =>
    if (lineGaps script).isEmpty then Eval.setStatus 0
    else evaluateLines fuel tested (script.count '\n') script

def evaluateLines (fuel : Nat) (tested : Bool) (total : Nat) (script : Bytes) : Eval Unit := do
  match fuel with
  | 0 => Act.stop (α := Unit)
  | fuel + 1 =>
    if script.isEmpty then return ()
    match readNext total script with
    | .ok (c, rest) =>
      run fuel tested c
      evaluateLines fuel tested total rest
    | .error fault =>
      modifyThe State fun s => { s with line := fault.line }
      Eval.grumble s!"Syntax error: {fault.error.message}"
      throw (.exit 2)

def simple (fuel : Nat) (tested : Bool) (assignments : List (Bytes × Word)) (words : List Word)
    (redirections : List (Redirection Word)) : Eval Nat := do
  match fuel with
  | 0 => Act.stop (α := Nat)
  | fuel + 1 =>
    modifyThe State fun s => { s with outputStatus := none }
    let all ← fields fuel words
    let old := (← getThe State).channels
    let restore : Eval Unit := modifyThe State fun s => { s with channels := old }
    match all with
    | [] =>
      let fine ← redirectAll fuel redirections
      restore
      if !fine then return 2
      let assigned ← assignAll fuel assignments
      trace (old.lookup 2) assigned []
      return (← getThe State).outputStatus.getD 0
    | name :: args =>
      let special := Builtin.isSpecial (String.ofList name)
      let fine ← redirectAll fuel redirections
      if !fine then
        restore
        if special then throw (.exit 2)
        return 2
      let before ← getThe State
      let assigned ← assignAll fuel assignments
      trace (old.lookup 2) assigned all
      if !special then
        modifyThe State fun s => { s with exported := assignments.map (·.1) ++ s.exported }
      let r ← Eval.attempt (invoke fuel tested name args)
      if !special && !assignments.isEmpty then
        let values := assignments.map fun x => (x.1, before.valueOf? x.1)
        modifyThe State fun s => { Builtin.restore values s with exported := before.exported }
      if !(name = "exec".toList && args.isEmpty) then restore
      match r with
      | .ok status => return status
      | .error j => throw j

def turn (fuel : Nat) (tested : Bool) (body : Command) : Eval Bool := do
  match fuel with
  | 0 => Act.stop (α := Bool)
  | fuel + 1 =>
    modifyThe State fun s => { s with loops := s.loops + 1 }
    let r ← Eval.attempt (run fuel tested body)
    modifyThe State fun s => { s with loops := s.loops - 1 }
    match r with
    | .ok () => return true
    | .error j =>
      match landing j with
      | .ok goesOn =>
        Eval.setStatus 0
        return goesOn
      | .error j => throw j

def loopOn (fuel : Nat) (tested stopOn : Bool) (condition body : Command) (last : Nat) : Eval Unit := do
  match fuel with
  | 0 => Act.stop (α := Unit)
  | fuel + 1 =>
    let goesOn ← turn fuel true condition
    if !goesOn || ((← getThe State).status = 0) = stopOn then Eval.setStatus last
    else if ← turn fuel tested body then
      loopOn fuel tested stopOn condition body (← getThe State).status
    else return ()

def eachOf (fuel : Nat) (tested : Bool) (name : Bytes) (body : Command) : List Bytes → Eval Unit
  | [] => return ()
  | b :: rest => do
    match fuel with
    | 0 => Act.stop (α := Unit)
    | fuel + 1 =>
      modifyThe State fun s => s.setVariable name b
      if ← turn fuel tested body then eachOf fuel tested name body rest else return ()

def branch (fuel : Nat) (tested : Bool) (b : Bytes) : List (List Word × Command) → Eval Unit
  | [] => Eval.setStatus 0
  | (patterns, body) :: rest => do
    match fuel with
    | 0 => Act.stop (α := Unit)
    | fuel + 1 =>
      let found ← patterns.anyM fun p => do return Glob.isMatch (patternOf (← chunks fuel p)) b
      if found then
        Eval.setStatus 0
        run fuel tested body
      else branch fuel tested b rest

def run (fuel : Nat) (tested : Bool) (c : Command) : Eval Unit := do
  match fuel with
  | 0 => Act.stop (α := Unit)
  | fuel + 1 =>
    -- a failure outside of a test ends a strict script
    let ended (status : Nat) : Eval Unit := do
      Eval.setStatus status
      if status != 0 && !tested && (← getThe State).isStrict then throw (.exit status)
    if (← getThe State).options.contains 'n' then return ()
    match c with
    | .nothing => return ()
    | .simple line assignments words redirections =>
      modifyThe State fun s => { s with line }
      ended (← simple fuel tested assignments words redirections)
    | .redirected body redirections =>
      let old := (← getThe State).channels
      let fine ← redirectAll fuel redirections
      if fine then
        let r ← Eval.attempt (run fuel tested body)
        modifyThe State fun s => { s with channels := old }
        match r with
        | .ok () => return ()
        | .error j => throw j
      else
        modifyThe State fun s => { s with channels := old }
        ended 2
    | .sequence first second =>
      run fuel tested first
      run fuel tested second
    | .both first second =>
      run fuel true first
      if (← getThe State).status = 0 then run fuel tested second
    | .either first second =>
      run fuel true first
      if (← getThe State).status != 0 then run fuel tested second
    | .negated body =>
      run fuel true body
      Eval.setStatus (if (← getThe State).status = 0 then 1 else 0)
    | .subshell body =>
      ended (← Eval.isolated do
        modifyThe State fun s => { s with farewell := none }
        withFarewell fuel (run fuel tested body))
    | .background body =>
      let start := (← getThe World).now
      let status ← Eval.detached do
        modifyThe State fun s => { s with channels := putChannel 0 .nothing s.channels, farewell := none }
        run fuel tested body
      let finish := (← getThe World).now
      let held := if holdsOutput body then finish else start
      modifyThe World fun w => { w with now := start, heldUntil := max w.heldUntil held }
      modifyThe State fun s =>
        { s with jobs := ⟨101 + s.jobs.length, status, finish⟩ :: s.jobs, status := 0 }
    | .pipe first second =>
      let opening : Act Nat := Act.openSink true
      let sink ← opening
      let start := (← getThe World).now
      let _ ← Eval.isolated do
        modifyThe State fun s => { s with channels := putChannel 1 (.sink sink) s.channels, farewell := none }
        run fuel tested first
      let middle := (← getThe World).now
      let taken : Act Sink := Act.sinkAt sink
      let given ← taken
      let reading : Act Channel := Act.openStream ⟨given.bytes, given.cycle, none⟩
      let channel ← reading
      modifyThe World fun w => { w with now := start }
      let status ← Eval.isolated do
        modifyThe State fun s => { s with channels := putChannel 0 channel s.channels, farewell := none }
        run fuel tested second
      modifyThe World fun w => { w with now := max w.now middle }
      ended status
    | .choice condition yes no =>
      run fuel true condition
      if (← getThe State).status = 0 then run fuel tested yes
      else
        Eval.setStatus 0
        run fuel tested no
    | .loop stopOn condition body => loopOn fuel tested stopOn condition body 0
    | .each name words body =>
      let values ← match words with
        | some ws => fields fuel ws
        | none => pure (← getThe State).arguments
      Eval.setStatus 0
      eachOf fuel tested name body values
    | .cases subject branches =>
      let b := joined (← chunks fuel subject)
      branch fuel tested b branches
    | .function name body =>
      modifyThe State fun s =>
        { s with functions := (name, body) :: s.functions.filter (·.1 != name) }
      Eval.setStatus 0

end

end ConstraintDesk.Shell
