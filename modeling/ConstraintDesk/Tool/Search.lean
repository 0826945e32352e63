import ConstraintDesk.Machine.Regex
import ConstraintDesk.Tool.Lines
/-! Searching lines. -/
namespace ConstraintDesk.Tool

open Machine

structure Search where
  patterns : List Regex
  ignoreCase : Bool
  inverted : Bool
  wholeLine : Bool
  wholeWord : Bool

namespace Search

def isWord (text : Bytes) (m : Regex.Match) : Bool :=
  let before := if m.start = 0 then none else text[m.start - 1]?
  !before.any Regex.isWordChar && !text[m.finish]?.any Regex.isWordChar

def find? (s : Search) (fuel : Nat) (text : Bytes) (index : Nat) : Option Regex.Match :=
  match fuel with
  | 0 => none
  | fuel + 1 =>
    let before := if index = 0 then none else text[index - 1]?
    let found := s.patterns.filterMap fun r =>
      Regex.find? s.ignoreCase r before index (text.drop index)
    let best := found.foldl (fun best m =>
      match best with
      | none => some m
      | some b =>
        if m.start < b.start || (m.start = b.start && b.finish < m.finish) then some m else best)
      (none : Option Regex.Match)
    match best with
    | none => none
    | some m => if s.wholeWord && !isWord text m then find? s fuel text (m.start + 1) else some m

def accepts (s : Search) (line : Bytes) : Bool :=
  let found := if s.wholeLine then
      s.patterns.any fun r =>
        let whole := Regex.sequence r .lineEnd
        (Regex.matchAt s.ignoreCase whole ⟨none, 0, line, []⟩).isSome
    else (s.find? (line.length + 2) line 0).isSome
  found != s.inverted

def parts (s : Search) (fuel : Nat) (line : Bytes) (index : Nat) : List Bytes :=
  match fuel with
  | 0 => []
  | fuel + 1 =>
    match s.find? (line.length + 2) line index with
    | none => []
    | some m =>
      if m.finish = m.start then
        if line.length ≤ m.start then [] else parts s fuel line (m.start + 1)
      else (line.drop m.start).take (m.finish - m.start) :: parts s fuel line m.finish

def readPatterns (o : Options) (kind : Option Bool) (expressions : List Bytes) :
    Except Regex.Fault (List Regex) :=
  (expressions.flatMap (Text.splitOn '\n')).mapM fun e =>
    match kind with
    | none => .ok (Regex.literal e)
    | some extended =>
      let extended := extended || o.has 'E'
      match Regex.parse extended e with
      | .error .strayClose => if extended then .ok (Regex.literal e) else .error .strayClose
      | r => r

end Search

def withContext (before after : Nat) (lines : List ((Bytes × Nat) × Bool)) : List ((Bytes × Nat) × Bool) :=
  let hits := lines.filterMap fun (x, hit) => if hit then some x.2 else none
  lines.filter fun (x, _) => hits.any fun n => n ≤ x.2 + before && x.2 ≤ n + after

def searchIn (o : Options) (s : Search) (name : Option Bytes) (b : Bytes) : Bytes × Bool :=
  let start (joint : Char) (n : Nat) : Bytes :=
    (name.map fun x => x ++ [joint]).getD [] ++ (if o.has 'n' then Bytes.ofNat n ++ [joint] else [])
  let numbered := (Bytes.lines b).zipIdx 1
  let hits := numbered.filter fun (line, _) => s.accepts line
  let hits := match (o.value? 'm').bind Bytes.nat? with
    | some n => hits.take n
    | none => hits
  let found := !hits.isEmpty
  let print (n : Nat) (line : Bytes) : Bytes := start ':' n ++ line ++ ['\n']
  let context (c : Char) : Nat := (((o.value? c).or (o.value? 'C')).bind Bytes.nat?).getD 0
  if o.has 'q' then ([], found)
  else if o.has 'l' then (if found then (name.getD "(standard input)".toList) ++ ['\n'] else [], found)
  else if o.has 'L' then (if found then [] else (name.getD "(standard input)".toList) ++ ['\n'], found)
  else if o.has 'c' then
    ((name.map fun x => x ++ [':']).getD [] ++ Bytes.ofNat hits.length ++ ['\n'], found)
  else if o.has 'o' then
    (hits.flatMap fun (line, n) => (s.parts (line.length + 2) line 0).flatMap (print n), found)
  else if context 'A' = 0 && context 'B' = 0 then
    (hits.flatMap fun (line, n) => print n line, found)
  else
    let chosen := hits.map (·.2)
    let shown := withContext (context 'B') (context 'A')
      (numbered.map fun x => (x, chosen.contains x.2))
    let (pieces, _) := shown.foldl (fun (pieces, last) ((line, n), hit) =>
      let gap : Bytes := if last != 0 && last + 1 < n then ['-', '-', '\n'] else []
      ((gap ++ start (if hit then ':' else '-') n ++ line ++ ['\n']) :: pieces, n))
      (([] : List Bytes), 0)
    (pieces.reverse.flatten, found)

def isRaw (b : Bytes) : Bool := b.contains '\x00'

def grepAll (o : Options) (s : Search) (paths : List Bytes) : Work Nat := do
  let named := (1 < paths.length || o.has 'H') && !o.has 'h'
  let (found, failed) ← paths.foldlM (fun (found, failed) path => do
    match ← Work.source path with
    | .ok stream =>
      let name := if path = ['-'] then "(standard input)".toList else path
      let label := if named || o.has 'l' || o.has 'L' then some name else none
      let content ← Work.finite stream
      let (b, hit) := searchIn o s label content
      let summary := o.has 'q' || o.has 'l' || o.has 'L' || o.has 'c' || o.has 'a'
      if isRaw content && !summary then
        if hit then Work.complain s!"grep: {Bytes.toString name}: binary file matches\n"
      else Work.print b
      return (found || hit, failed)
    | .error r =>
      if !o.has 's' then Work.complain s!"grep: {Bytes.toString path}: {r.text}\n"
      return (found, true)) (false, false)
  return if failed && !(found && o.has 'q') then 2 else if found then 0 else 1

def grep (kind : Option Bool) (args : List Bytes) : Work Nat := do
  let o := Options.ofArgs "efmABC" args
  let kind := if o.has 'F' then none else kind
  let given := o.flags.filterMap fun (c, v) => if c = 'e' then some v else none
  let (expressions, operands) := if given.isEmpty then (o.operands.take 1, o.operands.drop 1)
    else (given, o.operands)
  if expressions.isEmpty then
    Work.complain "Usage: grep [OPTION]... PATTERNS [FILE]...\nTry 'grep --help' for more information.\n"
    return 2
  match Search.readPatterns o kind expressions with
  | .error fault =>
    Work.complain s!"grep: {fault.message}\n"
    return 2
  | .ok patterns =>
    grepAll o ⟨patterns, o.has 'i' || o.has 'y', o.has 'v', o.has 'x', o.has 'w'⟩ (sources operands)

end ConstraintDesk.Tool
