import ConstraintDesk.Tool.Instruction
import ConstraintDesk.Tool.Lines
/-! Editing lines as they pass by: for every line the instructions of a script run from first to last,
on the line at hand and on a text that is kept from line to line. -/
namespace ConstraintDesk.Tool

open Machine

namespace Edit

def inCasing (lasting now : Casing) (b : Bytes) : Bytes :=
  let change (upper : Bool) (c : Char) : Char := if upper then c.toUpper else c.toLower
  let through (b : Bytes) : Bytes := match lasting with | .all upper => b.map (change upper) | _ => b
  match now, b with
  | .first upper, c :: r => change upper c :: through r
  | _, b => through b

def replacement (m : Regex.Match) (whole : Bytes) (lasting now : Casing) : List Part → Bytes
  | [] => []
  | .casing c :: rest =>
    match c with
    | .first _ => replacement m whole lasting c rest
    | _ => replacement m whole c c rest
  | .text b :: rest => inCasing lasting now b ++ replacement m whole lasting lasting rest
  | .group n :: rest =>
    let b := if n = 0 then whole else (m.groups.lookup n).getD []
    inCasing lasting now b ++
      replacement m whole lasting (if b.isEmpty then now else lasting) rest

def substitute (fuel : Nat) (s : Substitution) (count : Nat) (free : Bool) (before : Option Char)
    (index : Nat) (rest : Bytes) : Option Bytes :=
  match fuel with
  | 0 => none
  | fuel + 1 =>
    match Regex.find? s.ignoreCase s.pattern before index rest with
    | none => none
    | some m =>
      if m.finish = index && !free then
        match rest with
        | [] => none
        | c :: r => (substitute fuel s count true (some c) (index + 1) r).map (c :: ·)
      else
        let ahead := rest.take (m.start - index)
        let whole := (rest.drop (m.start - index)).take (m.finish - m.start)
        let behind := rest.drop (m.finish - index)
        let chosen := s.nth ≤ count + 1
        let put := if chosen then replacement m whole .asIs .asIs s.replacement else whole
        let later :=
          if chosen && !s.all then none
          else match whole, behind with
            | [], [] => none
            | [], c :: r =>
              (substitute fuel s (count + 1) true (some c) (m.finish + 1) r).map (c :: ·)
            | _, _ => substitute fuel s (count + 1) false whole.getLast? m.finish behind
        if !chosen && later.isNone then none else some (ahead ++ put ++ later.getD behind)

structure Row where
  text : Bytes
  ended : Bool

def Row.map (r : Row) (f : Bytes → Bytes) : Row := { r with text := f r.text }

structure Range where
  index : Nat
  start : Nat

structure Editor where
  silent : Bool
  number : Nat
  line : Row
  rest : List Bytes
  held : Row
  output : List Bytes
  due : Bool
  appended : List Bytes
  opened : List Range
  replaced : Bool
  contents : Bytes → Bytes

inductive Ending where
  | cycle (print : Bool)
  | again
  | quit (status : Nat) (print : Bool)

namespace Editor

def isLast (e : Editor) : Bool := e.rest.isEmpty

def settle (e : Editor) : Editor := if e.due then { e with output := ['\n'] :: e.output, due := false } else e

def print (e : Editor) (b : Bytes) : Editor :=
  let e := e.settle
  { e with output := b :: e.output }

def printLine (e : Editor) (b : Bytes) : Editor := e.print (b ++ ['\n'])

def printRow (e : Editor) (b : Bytes) : Editor :=
  if e.line.ended then e.printLine b else { e.print b with due := true }

def printOwn (e : Editor) : Editor := e.printRow e.line.text

def flush (e : Editor) : Editor := { e.appended.foldl print e with appended := [] }

def readLine? (e : Editor) (f : Bytes → Bytes) : Option Editor :=
  match e.rest with
  | [] => none
  | full :: rest =>
    let ended := full.getLast? = some '\n'
    let line := if ended then full.dropLast else full
    some { e with number := e.number + 1, line := ⟨f line, ended⟩, rest }

def matchesAddress (e : Editor) : Address → Bool
  | .line n => e.number = n
  | .every first step => first ≤ e.number && (e.number - first) % step = 0
  | .behind _ => false
  | .last => e.isLast
  | .pattern r ignoreCase => Regex.occursIn ignoreCase r e.line.text

def applies (e : Editor) (index : Nat) (i : Instruction) : Bool × Bool × List Range :=
  let ends (start : Nat) : Address → Bool
    | .line n => n ≤ e.number
    | .behind n => start + n ≤ e.number
    | .every _ step => e.number % step = 0
    | a => start < e.number && e.matchesAddress a
  match i.addresses with
  | [] => (true, true, e.opened)
  | [a] => (e.matchesAddress a, true, e.opened)
  | a :: b :: _ =>
    match e.opened.find? (·.index = index) with
    | some range =>
      let others := e.opened.filter (·.index != index)
      if ends range.start b then (true, true, others) else (true, false, e.opened)
    | none =>
      let fromStart : Bool := match a with | .line 0 => e.number == 1 | _ => false
      if fromStart then
        if e.matchesAddress b then (true, true, e.opened) else (true, false, ⟨index, 0⟩ :: e.opened)
      else if e.matchesAddress a then
        if ends e.number b then (true, true, e.opened)
        else (true, false, ⟨index, e.number⟩ :: e.opened)
      else (false, true, e.opened)

end Editor

def behindBlock (depth : Nat) : List (Instruction × Nat) → List (Instruction × Nat)
  | [] => []
  | (i, _) :: rest =>
    match i.action, depth with
    | .blockEnd, 0 => rest
    | .blockEnd, depth + 1 => behindBlock depth rest
    | .blockStart, depth => behindBlock (depth + 1) rest
    | _, depth => behindBlock depth rest

def behindLabel (name : Bytes) (all : List (Instruction × Nat)) : List (Instruction × Nat) :=
  (all.dropWhile fun (i, _) =>
    match i.action with
    | .label other => other != name
    | _ => true).tail

def steps (fuel : Nat) (all : List (Instruction × Nat)) (e : Editor) :
    List (Instruction × Nat) → Editor × Ending
  | [] => (e, .cycle true)
  | (i, index) :: rest =>
    match fuel with
    | 0 => (e, .quit 4 false)
    | fuel + 1 =>
      let (within, isEnd, opened) := e.applies index i
      let e := { e with opened }
      if within = i.negated then
        steps fuel all e (match i.action with | .blockStart => behindBlock 0 rest | _ => rest)
      else match i.action with
        | .substitute s =>
          match substitute (2 * e.line.text.length + 2) s 0 true none 0 e.line.text with
          | some text =>
            let e := { e with line := { e.line with text }, replaced := true }
            steps fuel all (if s.print then e.printOwn else e) rest
          | none => steps fuel all e rest
        | .print => steps fuel all e.printOwn rest
        | .printFirst => steps fuel all (e.printLine (e.line.text.takeWhile (· ≠ '\n'))) rest
        | .delete => (e, .cycle false)
        | .deleteFirst =>
          if e.line.text.contains '\n' then
            ({ e with line := e.line.map fun b => (b.dropWhile (· ≠ '\n')).tail }, .again)
          else (e, .cycle false)
        | .clear => steps fuel all { e with line := e.line.map fun _ => [] } rest
        | .quit status silent => (e, .quit status !silent)
        | .number => steps fuel all (e.printLine (Bytes.ofNat e.number)) rest
        | .transliterate source target =>
          let pairs := source.zip target
          steps fuel all { e with line := e.line.map fun b => b.map fun x => (pairs.lookup x).getD x } rest
        | .append text => steps fuel all { e with appended := e.appended ++ [text ++ ['\n']] } rest
        | .insert text => steps fuel all (e.printLine text) rest
        | .change text => (if isEnd || i.negated then e.printLine text else e, .cycle false)
        | .readFile path => steps fuel all { e with appended := e.appended ++ [e.contents path] } rest
        | .next =>
          if e.isLast then (e, .cycle true)
          else
            let e := (if e.silent then e else e.printOwn).flush
            steps fuel all ((e.readLine? id).getD e) rest
        | .join =>
          match e.flush.readLine? fun line => e.line.text ++ '\n' :: line with
          | some e => steps fuel all e rest
          | none => (e, .cycle true)
        | .hold more =>
          let held := if more then e.line.map fun b => e.held.text ++ '\n' :: b else e.line
          steps fuel all { e with held } rest
        | .recall more =>
          let line := if more then e.held.map fun b => e.line.text ++ '\n' :: b else e.held
          steps fuel all { e with line } rest
        | .exchange => steps fuel all { e with line := e.held, held := e.line } rest
        | .jump condition name =>
          if condition.all (· = e.replaced) then
            let e := if condition.isSome then { e with replaced := false } else e
            steps fuel all e (behindLabel name all)
          else steps fuel all (if condition.isSome then { e with replaced := false } else e) rest
        | .label _ | .blockStart | .blockEnd | .nothing => steps fuel all e rest

def cycles (fuel : Nat) (all : List (Instruction × Nat)) (ready : Bool) (e : Editor) : Editor × Nat :=
  match fuel with
  | 0 => (e, 4)
  | fuel + 1 =>
    match if ready then some e else { e with replaced := false }.readLine? id with
    | none => (e, 0)
    | some e =>
      let (e, ending) := steps (fuel + 1) all e all
      let own (print : Bool) : Editor := (if print && !e.silent then e.printOwn else e).flush
      match ending with
      | .cycle print => cycles fuel all false (own print)
      | .again => cycles fuel all true e.flush
      | .quit status print => ((own print).settle, status)

def edit (silent : Bool) (contents : Bytes → Bytes) (is : List Instruction) (b : Bytes) : Bytes × Nat :=
  let (e, status) := cycles 100000 is.zipIdx false
    ⟨silent, 0, ⟨[], true⟩, Bytes.fullLines b, ⟨[], true⟩, [], false, [], [], false, contents⟩
  (e.output.reverse.flatten, status)

end Edit

def shortened (args : List Bytes) : List Bytes :=
  args.flatMap fun a =>
    match String.ofList a with
    | "--quiet" | "--silent" => [['-', 'n']]
    | "--regexp-extended" => [['-', 'E']]
    | "--in-place" => [['-', 'i']]
    | "--separate" => [['-', 's']]
    | _ => if "--expression=".toList.isPrefixOf a then [['-', 'e'], a.drop 13] else [a]

def sed (args : List Bytes) : Work Nat := do
  let o := Options.ofArgs "ef" (shortened args)
  let given := o.flags.filterMap fun (c, v) => if c = 'e' then some v else none
  let (scripts, operands) := if given.isEmpty then (o.operands.take 1, o.operands.drop 1)
    else (given, o.operands)
  match Instruction.ofScript (o.has 'E' || o.has 'r') (['\n'].intercalate scripts) with
  | .error (text, status) =>
    Work.complain s!"sed: {text}\n"
    return status
  | .ok is =>
    let files := (← getThe World).files
    let folder := (← read).folder
    let contents (path : Bytes) : Bytes := ((files.locate folder path >>= files.read).toOption).getD []
    let run (b : Bytes) : Bytes × Nat := Edit.edit (o.has 'n') contents is b
    let apart := o.has 'i' || o.has 's'
    let parts := if apart && !operands.isEmpty then operands.map ([·]) else [operands]
    let (status, failed) ← parts.foldlM
      (fun (status, failed) paths => do
        let (b, bad) ← gather "sed: can't read " paths
        let (text, ended) := run b
        if o.has 'i' && bad = 0 then
          paths.forM fun path => do
            let _ ← Work.change (fun files p => files.write p text false) path
        else Work.print text
        return (if status = 0 then ended else status, max failed bad)) (0, 0)
    return if status != 0 then status else if failed = 0 then 0 else 2

end ConstraintDesk.Tool
