import ConstraintDesk.Tool.Folders
import ConstraintDesk.Tool.Lines
/-! Tools that show bytes as numbers, compare files, lay lines side by side and measure files. -/
namespace ConstraintDesk.Tool

attribute [local instance (high)] instPowNat

open Machine

inductive DumpFormat where
  | character
  | number (bytes base : Nat) (signed : Bool)

namespace DumpFormat

def size : DumpFormat → Nat
  | .character => 1
  | .number bytes _ _ => bytes

def width : DumpFormat → Nat
  | .character => 3
  | .number bytes base signed =>
    (Nat.toDigits base (256 ^ bytes - 1)).length + (if signed then 1 else 0)

def nameOf (c : Char) : Bytes :=
  match c with
  | '\x00' => ['\\', '0']
  | '\x07' => ['\\', 'a']
  | '\x08' => ['\\', 'b']
  | '\x09' => ['\\', 't']
  | '\x0a' => ['\\', 'n']
  | '\x0b' => ['\\', 'v']
  | '\x0c' => ['\\', 'f']
  | '\x0d' => ['\\', 'r']
  | c => if ' ' ≤ c && c ≤ '~' then [c] else Bytes.padLeft 3 (Nat.toDigits 8 c.toNat) '0'

def cell (f : DumpFormat) (b : Bytes) : Bytes :=
  match f with
  | .character => ' ' :: Bytes.padLeft 3 (b.flatMap nameOf) ' '
  | .number bytes base signed =>
    let n : Nat := b.foldr (fun c n => c.toNat + 256 * n) 0
    let text :=
      if signed then Bytes.ofInt (Int.bmod n (256 ^ bytes))
      else if base = 10 then Nat.toDigits 10 n
      else Bytes.padLeft f.width (Nat.toDigits base n) '0'
    ' ' :: Bytes.padLeft f.width text ' '

end DumpFormat

def pieces {α : Type} (fuel n : Nat) (items : List α) : List (List α) :=
  match fuel, items with
  | 0, _ | _, [] => []
  | fuel + 1, items => items.take n :: pieces fuel n (items.drop n)

def piecesOf {α : Type} (n : Nat) (items : List α) : List (List α) := pieces items.length n items

def replaceAll (part other : Bytes) (b : Bytes) : Bytes :=
  if part.isEmpty then b else go b.length b
where
  go : Nat → Bytes → Bytes
    | 0, b => b
    | _, [] => []
    | fuel + 1, c :: r =>
      if part.isPrefixOf (c :: r) then other ++ go fuel ((c :: r).drop part.length)
      else c :: go fuel r

def dumpFormat? (b : Bytes) : Option DumpFormat :=
  let bytes := (Bytes.nat? (b.drop 1)).getD (if b.head? = some 'c' then 1 else 4)
  if !([1, 2, 4, 8].contains bytes) then none
  else match b.head? with
    | some 'x' => some (.number bytes 16 false)
    | some 'o' => some (.number bytes 8 false)
    | some 'u' => some (.number bytes 10 false)
    | some 'd' => some (.number bytes 10 true)
    | some 'c' => some .character
    | _ => none

def dumpOffset (base : Option Char) (n : Nat) : Bytes :=
  match base with
  | some 'n' => []
  | some 'x' => Bytes.padLeft 6 (Nat.toDigits 16 n) '0'
  | some 'd' => Bytes.padLeft 7 (Nat.toDigits 10 n) '0'
  | _ => Bytes.padLeft 7 (Nat.toDigits 8 n) '0'

def dumpLines (format : DumpFormat) (base : Option Char) (all : Bool) (start perLine : Nat)
    (b : Bytes) : List Bytes :=
  let rows := (piecesOf perLine b).zipIdx
  let row (x : Bytes × Nat) : Bytes :=
    dumpOffset base (start + x.2 * perLine) ++ (piecesOf format.size x.1).flatMap format.cell
  let (lines, _, _) := rows.foldl (fun (lines, before, starred) x =>
    if !all && before = some x.1 && x.1.length = perLine then
      (if starred then lines else ['*'] :: lines, before, true)
    else (row x :: lines, some x.1, false)) (([] : List Bytes), (none : Option Bytes), false)
  let final := dumpOffset base (start + b.length)
  (if final.isEmpty then lines else final :: lines).reverse

def od (args : List Bytes) : Work Nat := do
  let o := Options.ofArgs "AtNjw" args
  let (b, status) ← gather "od: " o.operands
  let quantity (c : Char) : Option Nat := (o.value? c).bind quantity?
  let start := (quantity 'j').getD 0
  let rest := b.drop start
  let chosen := match quantity 'N' with
    | some n => rest.take n
    | none => rest
  let format :=
    if o.has 'c' then some DumpFormat.character
    else if o.has 'b' then some (.number 1 8 false)
    else if o.has 'x' then some (.number 2 16 false)
    else match o.value? 't' with
      | some t => dumpFormat? t
      | none => some (.number 2 8 false)
  match format with
  | none =>
    let letters := (o.value? 't').getD []
    misused "od" s!"invalid type string '{Bytes.toString letters}'"
  | some format =>
    let base := (o.value? 'A').bind List.head?
    let perLine := (quantity 'w').getD 16
    Work.print (unlines (dumpLines format base (o.has 'v') start perLine chosen))
    return status

def firstDifference? (n : Nat) : Bytes → Bytes → Option Nat
  | a :: x, b :: y => if a = b then firstDifference? (n + 1) x y else some n
  | _, _ => none

def cmp (args : List Bytes) : Work Nat := do
  let o := Options.ofArgs "n" args
  let content (path : Bytes) : Work (Option Bytes) := do
    match ← Work.source path with
    | .ok s => return some (← Work.finite s)
    | .error r =>
      if !o.has 's' then Work.complain s!"cmp: {Bytes.toString path}: {r.text}\n"
      return none
  match o.operands with
  | [] => misused "cmp" "missing operand after 'cmp'"
  | first :: more =>
    let second := more.head?.getD ['-']
    match ← content first, ← content second with
    | some x, some y =>
      if x = y then return 0
      if !o.has 's' then
        match firstDifference? 1 x y with
        | some n =>
          let line := (x.take (n - 1)).count '\n' + 1
          Work.print (Bytes.ofString
            s!"{Bytes.toString first} {Bytes.toString second} differ: char {n}, line {line}\n")
        | none =>
          let (name, short) := if x.length < y.length then (first, x) else (second, y)
          let breaks := short.count '\n'
          let place :=
            if short.isEmpty then "which is empty"
            else if short.getLast? = some '\n' then s!"after byte {short.length}, line {breaks}"
            else s!"after byte {short.length}, in line {breaks + 1}"
          Work.complain s!"cmp: EOF on {Bytes.toString name} {place}\n"
      return 1
    | _, _ => return 2

def paste (args : List Bytes) : Work Nat := do
  let o := Options.ofArgs "d" args
  let separators := match o.value? 'd' with
    | some d => if d.isEmpty then [[]] else d.map fun c => [c]
    | none => [['\t']]
  let join (items : List Bytes) : Bytes :=
    (items.zipIdx.map fun (item, n) =>
      if n = 0 then item else (separators[(n - 1) % separators.length]?).getD [] ++ item).flatten
  let paths := sources o.operands
  let read (path : Bytes) : Work (Option (List Bytes)) := do
    match ← Work.source path with
    | .ok s => return some (Bytes.lines (← Work.finite s))
    | .error r =>
      Work.complain s!"paste: {Bytes.toString path}: {r.text}\n"
      return none
  let named := paths.eraseDups
  let inputs ← named.mapM fun path => return (path, ← read path)
  if inputs.any (·.2.isNone) then return 1
  let lines (path : Bytes) : List Bytes := ((inputs.lookup path).bind id).getD []
  if o.has 's' then
    Work.print (unlines (paths.map fun path => join (lines path)))
  else
    let column (index : Nat) (path : Bytes) : List Bytes :=
      if path != ['-'] then lines path
      else
        let times := paths.count path
        let before := (paths.take index).count path
        ((lines path).zipIdx.filter fun x => x.2 % times = before).map (·.1)
    let columns := paths.zipIdx.map fun (path, index) => column index path
    let height := (columns.map List.length).foldl max 0
    let row (n : Nat) : Bytes := join (columns.map fun column => (column[n]?).getD [])
    Work.print (unlines ((List.range height).map row))
  return 0

def fold (args : List Bytes) : Work Nat := do
  let o := Options.ofArgs "w" args
  let (b, status) ← gather "fold: " o.operands
  let width := max 1 (((o.value? 'w').bind Bytes.nat?).getD 80)
  Work.print ((Bytes.fullLines b).map fun line =>
    let (own, ended) := if line.getLast? = some '\n' then (line.dropLast, ['\n']) else (line, [])
    ['\n'].intercalate (piecesOf width own) ++ ended).flatten
  return status

def statOf (path : Bytes) (files : Files) (p : Place) : Bytes → Bytes
  | '%' :: c :: r =>
    let part : Bytes := match c with
      | 'n' => path
      | 's' => Bytes.ofNat (match files.entry? p with
        | some (.file content) => content.length
        | some .folder => 4096
        | _ => 0)
      | 'F' => (match files.entry? p with
        | some (.file content) => if content.isEmpty then "regular empty file" else "regular file"
        | some .folder => "directory"
        | _ => "character special file").toList
      | '%' => ['%']
      | c => ['%', c]
    part ++ statOf path files p r
  | c :: r => c :: statOf path files p r
  | [] => []

def stat (args : List Bytes) : Work Nat := do
  let args := args.flatMap fun a =>
    if "--format=".toList.isPrefixOf a then [['-', 'c'], a.drop 9] else [a]
  let o := Options.ofArgs "c" args
  if o.operands.isEmpty then missingOperand "stat"
  else Work.eachOf o.operands fun path => do
    let files := (← getThe World).files
    match (← Work.locate path).bind fun p => (files.entry? p).elim (.error .noEntry) fun _ => .ok p with
    | .ok p =>
      Work.print (statOf path files p ((o.value? 'c').getD ['%', 'n']) ++ ['\n'])
      return 0
    | .error r =>
      Work.complain s!"stat: cannot statx '{shown path}': {r.text}\n"
      return 1

end ConstraintDesk.Tool
