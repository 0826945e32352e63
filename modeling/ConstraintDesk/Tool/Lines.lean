import ConstraintDesk.Tool.Work
/-! Tools that take in bytes or lines and give them back changed, chosen or counted. -/
namespace ConstraintDesk.Tool

attribute [local instance (high)] Zero.ofOfNat0

open Machine

def sources (operands : List Bytes) : List Bytes := if operands.isEmpty then [['-']] else operands

def onEach (tool : String) (operands : List Bytes) (f : Bytes → Stream → Work Unit) : Work Nat :=
  Work.eachOf (sources operands) fun path => do
    match ← Work.source path with
    | .ok s =>
      f path s
      return 0
    | .error r =>
      Work.complain s!"{tool}: {Bytes.toString path}: {r.text}\n"
      return 1

def gather (voice : String) (operands : List Bytes) : Work (Bytes × Nat) := do
  let (parts, status) ← (sources operands).foldlM (fun (parts, status) path => do
    match ← Work.source path with
    | .ok s => return ((← Work.finite s) :: parts, status)
    | .error r =>
      Work.complain s!"{voice}{Bytes.toString path}: {r.text}\n"
      return (parts, 1)) (([], 0) : List Bytes × Nat)
  return (parts.reverse.flatten, status)

def numbered (filledOnly : Bool) (start : Nat) (lines : List Bytes) : List Bytes :=
  (lines.foldl (fun (n, done) line =>
    if filledOnly && line = ['\n'] then (n, line :: done)
    else (n + 1, (Bytes.padLeft 6 (Bytes.ofNat n) ' ' ++ '\t' :: line) :: done)) (start, [])).2.reverse

def visible (tabs others : Bool) (c : Char) : Bytes :=
  let plain (n : Nat) : Bytes :=
    if n < 32 then ['^', Char.ofNat (n + 64)] else if n = 127 then ['^', '?'] else [Char.ofNat n]
  if c = '\t' then (if tabs then ['^', 'I'] else [c])
  else if c = '\n' || !others then [c]
  else if c.toNat < 128 then plain c.toNat
  else 'M' :: '-' :: plain (c.toNat - 128)

def cat (args : List Bytes) : Work Nat := do
  let o := Options.ofArgs "" args
  if o.flags.all (·.1 = 'u') then onEach "cat" o.operands fun _ s => Work.pour s
  else
    let (b, status) ← gather "cat: " o.operands
    let ends := o.has 'E' || o.has 'e' || o.has 'A'
    let tabs := o.has 'T' || o.has 't' || o.has 'A'
    let others := o.has 'v' || o.has 'e' || o.has 't' || o.has 'A'
    let lines := (Bytes.fullLines b).map fun line =>
      let line := line.flatMap (visible tabs others)
      if ends && line.getLast? = some '\n' then line.dropLast ++ ['$', '\n'] else line
    let lines := if o.has 'b' then numbered true 1 lines
      else if o.has 'n' then numbered false 1 lines else lines
    Work.print lines.flatten
    return status

def quantity? (b : Bytes) : Option Nat :=
  let digits := b.takeWhile Bytes.isDigit
  (Bytes.nat? digits).bind fun n =>
    match String.ofList (b.drop digits.length) with
    | "" => some n
    | "b" => some (n * 512)
    | "kB" => some (n * 1000)
    | "K" | "k" | "KiB" => some (n * 1024)
    | "MB" => some (n * 1000000)
    | "M" | "m" | "MiB" => some (n * 1048576)
    | _ => none

def fillLines (s : Stream) (n : Nat) : Work Bytes := do
  if !s.isEndless then return s.ready
  let breaks := s.cycle.count '\n'
  if breaks = 0 then Act.stop
  return s.fill (s.ready.length + (n / breaks + 1) * s.cycle.length)

def withCount (args : List Bytes) : List Bytes :=
  match args with
  | ('-' :: c :: r) :: rest =>
    if (c :: r).all Bytes.isDigit then ['-', 'n'] :: (c :: r) :: rest else args
  | _ => args

def withTitles (operands : List Bytes) (f : Stream → Work Unit) (first : Bool) (path : Bytes)
    (s : Stream) : Work Unit := do
  if 1 < operands.length then
    let title := if path = ['-'] then "standard input".toList else path
    Work.print ((if first then [] else ['\n']) ++ "==> ".toList ++ title ++ " <==\n".toList)
  f s

def isFirst (operands : List Bytes) (path : Bytes) : Bool := operands.head? = some path

def unreadable (tool : String) (path : Bytes) (r : Refusal) : String :=
  if r = .isFolder then s!"{tool}: error reading '{Bytes.toString path}': {r.text}\n"
  else s!"{tool}: cannot open '{Bytes.toString path}' for reading: {r.text}\n"

def onTitled (tool : String) (operands : List Bytes) (f : Stream → Work Unit) : Work Nat :=
  Work.eachOf (sources operands) fun path => do
    match ← Work.source path with
    | .ok s =>
      withTitles operands f (isFirst operands path) path s
      return 0
    | .error r =>
      Work.complain (unreadable tool path r)
      return 1

def badCount (tool what : String) (b : Bytes) : Work Nat := do
  Work.complain s!"{tool}: invalid number of {what}: '{Bytes.toString b}'\n"
  return 1

def dropEnd {α : Type} (n : Nat) (items : List α) : List α := items.take (items.length - n)

def showFront (fromInput counted : Bool) (s : Stream) (front : Bytes) : Work Unit := do
  Work.print front
  if fromInput && (counted || s.size.isSome) then
    Work.putBack { s with ready := s.ready.drop front.length }

def head (args : List Bytes) : Work Nat := do
  let o := Options.ofArgs "nc" (withCount args)
  let fromInput := decide (sources o.operands = [['-']])
  let signed (b : Bytes) : Bool × Option Nat :=
    if b.head? = some '-' then (true, quantity? b.tail) else (false, quantity? b)
  match o.value? 'c' with
  | some c =>
    match signed c with
    | (_, none) => badCount "head" "bytes" c
    | (false, some n) => onTitled "head" o.operands fun s => do
      showFront fromInput true s (s.take n).1
    | (true, some n) => onTitled "head" o.operands fun s => do
      Work.print (dropEnd n (← Work.finite s))
  | none =>
    let c := (o.value? 'n').getD ['1', '0']
    match signed c with
    | (_, none) => badCount "head" "lines" c
    | (false, some n) => onTitled "head" o.operands fun s => do
      showFront fromInput false s ((Bytes.fullLines (← fillLines s n)).take n).flatten
    | (true, some n) => onTitled "head" o.operands fun s => do
      Work.print (dropEnd n (Bytes.fullLines (← Work.finite s))).flatten

def tail (args : List Bytes) : Work Nat := do
  let o := Options.ofArgs "nc" (withCount args)
  let part {α : Type} (c : Bytes) : Option (List α → List α) :=
    if c.head? = some '+' then (quantity? c.tail).map fun n items => items.drop (n - 1)
    else (quantity? (if c.head? = some '-' then c.tail else c)).map fun n items =>
      items.drop (items.length - n)
  match o.value? 'c' with
  | some c =>
    match part c with
    | some f => onTitled "tail" o.operands fun s => do Work.print (f (← Work.finite s))
    | none => badCount "tail" "bytes" c
  | none =>
    let c := (o.value? 'n').getD ['1', '0']
    match part c with
    | some f => onTitled "tail" o.operands fun s => do
      Work.print (f (Bytes.fullLines (← Work.finite s))).flatten
    | none => badCount "tail" "lines" c

structure Counts where
  lines : Nat
  words : Nat
  bytes : Nat
  longest : Nat

def Counts.of (b : Bytes) : Counts :=
  ⟨b.count '\n', (Bytes.words b).length, b.length, ((Bytes.lines b).map List.length).foldl max 0⟩

def Counts.add (a b : Counts) : Counts :=
  ⟨a.lines + b.lines, a.words + b.words, a.bytes + b.bytes, max a.longest b.longest⟩

def wc (args : List Bytes) : Work Nat := do
  let o := Options.ofArgs "" args
  let o := if o.flags.isEmpty then { o with flags := [('l', []), ('w', []), ('c', [])] } else o
  let columns (c : Counts) : List Nat :=
    (if o.has 'l' then [c.lines] else []) ++ (if o.has 'w' then [c.words] else [])
      ++ (if o.has 'm' then [c.bytes] else []) ++ (if o.has 'c' then [c.bytes] else [])
      ++ (if o.has 'L' then [c.longest] else [])
  let (parts, status) ← (sources o.operands).foldlM (fun (parts, status) path => do
    match ← Work.source path with
    | .ok s => return ((path, s.size, ← Work.finite s) :: parts, status)
    | .error r =>
      Work.complain s!"wc: {Bytes.toString path}: {r.text}\n"
      return (parts, 1)) (([], 0) : List (Bytes × Option Nat × Bytes) × Nat)
  let parts := parts.reverse
  let single := (columns ⟨0, 0, 0, 0⟩).length = 1 && o.operands.length ≤ 1
  let total := (parts.map fun p => p.2.1.getD 0).sum
  let width := if single then 1
    else max (Bytes.ofNat total).length (if parts.all fun p => p.2.1.isSome then 1 else 7)
  let row (c : Counts) (name : Bytes) : Bytes :=
    let cells := (columns c).map fun n => Bytes.padLeft width (Bytes.ofNat n) ' '
    [' '].intercalate (if name.isEmpty then cells else cells ++ [name]) ++ ['\n']
  parts.forM fun (path, _, b) => Work.print (row (.of b) (if o.operands.isEmpty then [] else path))
  if 1 < o.operands.length then
    let sum := (parts.map fun p => Counts.of p.2.2).foldl Counts.add ⟨0, 0, 0, 0⟩
    Work.print (row sum "total".toList)
  return status

def unlines (lines : List Bytes) : Bytes := (lines.map (· ++ ['\n'])).flatten

def leadingInt (line : Bytes) : Int :=
  let r := line.dropWhile Bytes.isBlank
  let (negative, r) := if r.head? = some '-' then (true, r.tail) else (false, r)
  let n : Int := Decimal.natOf (r.takeWhile Bytes.isDigit)
  if negative then - n else n

def sort (args : List Bytes) : Work Nat := do
  let o := Options.ofArgs "kto" args
  let (b, status) ← gather "sort: cannot read: " o.operands
  let key (line : Bytes) : Bytes :=
    match (o.value? 'k').bind fun k => Bytes.nat? (k.takeWhile Bytes.isDigit) with
    | some n =>
      match o.value? 't' with
      | some (t :: _) => ((Text.splitOn t line)[n - 1]?).getD []
      | _ => ((Bytes.words line)[n - 1]?).getD []
    | none => line
  let fold (line : Bytes) : Bytes := if o.has 'f' then line.map Char.toUpper else line
  let inOrder (a b : Bytes) : Bool :=
    let (x, y) := (fold (key a), fold (key b))
    if o.has 'n' && leadingInt x != leadingInt y then leadingInt x < leadingInt y
    else if !o.has 'n' && x != y then Bytes.precedes x y
    else Bytes.precedes a b
  let le (a b : Bytes) : Bool := if o.has 'r' then inOrder b a else inOrder a b
  let sorted := (Bytes.lines b).mergeSort le
  let sorted := if o.has 'u' then
      (sorted.foldl (fun done line => if done.head? = some line then done else line :: done) []).reverse
    else sorted
  Work.print (unlines sorted)
  return if status = 0 then 0 else 2

def runs (lines : List Bytes) : List (Bytes × Nat) :=
  lines.foldr (fun line done =>
    match done with
    | (other, n) :: rest => if line = other then (other, n + 1) :: rest else (line, 1) :: done
    | [] => [(line, 1)]) []

def uniq (args : List Bytes) : Work Nat := do
  let o := Options.ofArgs "fsw" args
  let (b, status) ← gather "uniq: " (o.operands.take 1)
  let kept := (runs (Bytes.lines b)).filter fun (_, n) =>
    (!o.has 'd' || 1 < n) && (!o.has 'u' || n = 1)
  Work.print (unlines (kept.map fun (line, n) =>
    if o.has 'c' then Bytes.padLeft 7 (Bytes.ofNat n) ' ' ++ ' ' :: line else line))
  return status

def selection (list : Bytes) (n : Nat) : Bool :=
  (Text.splitOn ',' list).any fun part =>
    match Text.splitOn '-' part with
    | [a] => Bytes.nat? a = some n
    | [a, b] => (Bytes.nat? a).getD 1 ≤ n && n ≤ (Bytes.nat? b).getD n
    | _ => false

def selected {α : Type} (list : Bytes) (items : List α) : List α :=
  (items.zipIdx 1).filterMap fun (a, n) => if selection list n then some a else none

def cut (args : List Bytes) : Work Nat := do
  let o := Options.ofArgs "bcfd" args
  if !(o.has 'b' || o.has 'c' || o.has 'f') then
    misused "cut" "you must specify a list of bytes, characters, or fields"
  else
    let (b, status) ← gather "cut: " o.operands
    let delimiter := ((o.value? 'd').bind List.head?).getD '\t'
    let line (cs : Bytes) : Option Bytes :=
      match (o.value? 'c').or (o.value? 'b'), o.value? 'f' with
      | some list, _ => some (selected list cs)
      | none, some list =>
        if cs.contains delimiter then
          some ([delimiter].intercalate (selected list (Text.splitOn delimiter cs)))
        else if o.has 's' then none else some cs
      | none, none => some cs
    Work.print (unlines ((Bytes.lines b).filterMap line))
    return status

def mapLines (tool : String) (args : List Bytes) (f : List Bytes → List Bytes) : Work Nat := do
  let (b, status) ← gather tool (Options.ofArgs "" args).operands
  Work.print (f (Bytes.fullLines b)).flatten
  return status

def rev (args : List Bytes) : Work Nat :=
  mapLines "rev" args fun lines => lines.map fun line =>
    if line.getLast? = some '\n' then line.dropLast.reverse ++ ['\n'] else line.reverse

def tac (args : List Bytes) : Work Nat := mapLines "tac" args List.reverse

def nl (args : List Bytes) : Work Nat := do
  let (b, status) ← gather "nl: " (Options.ofArgs "b" args).operands
  let lines := numbered true 1 ((Bytes.lines b).map (· ++ ['\n']))
  Work.print (lines.map fun line => if line = ['\n'] then "       \n".toList else line).flatten
  return status

def tee (args : List Bytes) : Work Nat := do
  let o := Options.ofArgs "" args
  let b ← Work.finite (← Work.input)
  Work.print b
  Work.eachOf o.operands fun path => do
    match ← Work.change (fun files p => files.write p b (o.has 'a')) path with
    | .ok () => return 0
    | .error r =>
      Work.complain s!"tee: {Bytes.toString path}: {r.text}\n"
      return 1

end ConstraintDesk.Tool
