import ConstraintDesk.Machine.Bytes
/-! Regular expressions over bytes, in the two notations of search tools: a basic one, where brackets of
groups have a backslash, and an extended one, where they have none. -/
namespace ConstraintDesk.Machine

inductive Regex where
  | empty
  | char (c : Char)
  | any
  | set (negated : Bool) (ranges : List (Char × Char))
  | lineStart
  | lineEnd
  | wordEdge
  | group (index : Nat) (body : Regex)
  | reference (index : Nat)
  | repeated (body : Regex) (least : Nat) (most : Option Nat)
  | sequence (first second : Regex)
  | choice (first second : Regex)

namespace Regex

inductive Fault where
  | openGroup
  | strayClose
  | openSet
  | openBounds
  | badReference
  | badRange
  | badClass
  | trailingBackslash
  | other
  deriving DecidableEq, Repr

def Fault.message : Fault → String
  | .openGroup => "Unmatched ( or \\("
  | .strayClose => "Unmatched ) or \\)"
  | .openSet => "Unmatched [, [^, [:, [., or [="
  | .openBounds => "Unmatched \\\x7b"
  | .badReference => "Invalid back reference"
  | .badRange => "Invalid range end"
  | .badClass => "Invalid character class name"
  | .trailingBackslash => "Trailing backslash"
  | .other => "Invalid regular expression"

abbrev Parse (α : Type) := Except Fault α

def wordRanges : List (Char × Char) := [('a', 'z'), ('A', 'Z'), ('0', '9'), ('_', '_')]

def spaceRanges : List (Char × Char) := [(' ', ' '), ('\t', '\r')]

def inRanges (ranges : List (Char × Char)) (c : Char) : Bool := ranges.any fun r => r.1 ≤ c && c ≤ r.2

def class? (name : String) : Option (List (Char × Char)) :=
  match name with
  | "alpha" => some [('a', 'z'), ('A', 'Z')]
  | "digit" => some [('0', '9')]
  | "alnum" => some [('a', 'z'), ('A', 'Z'), ('0', '9')]
  | "upper" => some [('A', 'Z')]
  | "lower" => some [('a', 'z')]
  | "space" => some spaceRanges
  | "blank" => some [(' ', ' '), ('\t', '\t')]
  | "punct" => some [('!', '/'), (':', '@'), ('[', '\x60'), ('\x7b', '~')]
  | "print" => some [(' ', '~')]
  | "graph" => some [('!', '~')]
  | "cntrl" => some [('\x00', '\x1f'), ('\x7f', '\x7f')]
  | "xdigit" => some [('0', '9'), ('a', 'f'), ('A', 'F')]
  | _ => none

def readSet (first : Bool) (done : List (Char × Char)) :
    List Char → Parse (List (Char × Char) × List Char)
  | [] => .error .openSet
  | ']' :: r => if first then readSet false ((']', ']') :: done) r else .ok (done, r)
  | '[' :: ':' :: r =>
    let name := r.takeWhile fun c => c ≠ ':'
    match class? (String.ofList name) with
    | some ranges => readSet false (ranges ++ done) (r.drop (name.length + 2))
    | none => .error .badClass
  | a :: '-' :: b :: r =>
    if b = ']' then .ok (('-', '-') :: (a, a) :: done, r)
    else if b < a then .error .badRange
    else readSet false ((a, b) :: done) r
  | a :: r => readSet false ((a, a) :: done) r
termination_by cs => cs.length
decreasing_by all_goals simp only [List.length_drop, List.length_cons]; omega

def atEnd (extended : Bool) : List Char → Bool
  | [] => true
  | c :: r =>
    if extended then c = ')' || c = '|'
    else c = '\\' && (r.head? = some ')' || r.head? = some '|')

def escape (c : Char) : Regex :=
  match c with
  | 'w' => .set false wordRanges
  | 'W' => .set true wordRanges
  | 's' => .set false spaceRanges
  | 'S' => .set true spaceRanges
  | 'b' | '<' | '>' => .wordEdge
  | 'n' => .char '\n'
  | 't' => .char '\t'
  | c => if '1' ≤ c && c ≤ '9' then .reference (c.toNat - '0'.toNat) else .char c

def readBounds (extended : Bool) (cs : List Char) : Option (Nat × Option Nat × List Char) :=
  let low := cs.takeWhile Bytes.isDigit
  let r := cs.drop low.length
  let least := (Bytes.nat? low).getD 0
  let close (most : Option Nat) (r : List Char) : Option (Nat × Option Nat × List Char) :=
    match extended, r with
    | true, '\x7d' :: r => some (least, most, r)
    | false, '\\' :: '\x7d' :: r => some (least, most, r)
    | _, _ => none
  match r with
  | ',' :: r =>
    let high := r.takeWhile Bytes.isDigit
    close (Bytes.nat? high) (r.drop high.length)
  | _ => if low.isEmpty then none else close (some least) r

def readRepetition (extended : Bool) (cs : List Char) : Option (Nat × Option Nat × List Char) :=
  match extended, cs with
  | _, '*' :: r => some (0, none, r)
  | true, '+' :: r | false, '\\' :: '+' :: r => some (1, none, r)
  | true, '?' :: r | false, '\\' :: '?' :: r => some (0, some 1, r)
  | true, '\x7b' :: r | false, '\\' :: '\x7b' :: r => readBounds extended r
  | _, _ => none

def withRepetitions (fuel : Nat) (extended : Bool) (r : Regex) (cs : List Char) : Regex × List Char :=
  match fuel, readRepetition extended cs with
  | fuel + 1, some (least, most, rest) => withRepetitions fuel extended (.repeated r least most) rest
  | _, _ => (r, cs)

mutual

def readChoice (fuel : Nat) (extended : Bool) (groups : Nat) (cs : List Char) :
    Parse (Regex × Nat × List Char) :=
  match fuel with
  | 0 => .error .other
  | fuel + 1 => do
    let (first, groups, cs) ← readSequence fuel extended true groups cs
    let bar := match extended, cs with
      | true, '|' :: r | false, '\\' :: '|' :: r => some r
      | _, _ => none
    match bar with
    | some r =>
      let (second, groups, cs) ← readChoice fuel extended groups r
      return (.choice first second, groups, cs)
    | none => return (first, groups, cs)

def readSequence (fuel : Nat) (extended first : Bool) (groups : Nat) (cs : List Char) :
    Parse (Regex × Nat × List Char) :=
  match fuel with
  | 0 => .error .other
  | fuel + 1 => do
    if atEnd extended cs then return (.empty, groups, cs)
    let (r, groups, cs) ← readAtom fuel extended first groups cs
    let (r, cs) := withRepetitions cs.length extended r cs
    let (later, groups, cs) ← readSequence fuel extended false groups cs
    return (.sequence r later, groups, cs)

def readAtom (fuel : Nat) (extended first : Bool) (groups : Nat) (cs : List Char) :
    Parse (Regex × Nat × List Char) :=
  match fuel with
  | 0 => .error .other
  | fuel + 1 =>
    let opened := match extended, cs with
      | true, '(' :: r | false, '\\' :: '(' :: r => some r
      | _, _ => none
    match opened with
    | some r => do
      let (body, count, rest) ← readChoice fuel extended (groups + 1) r
      match extended, rest with
      | true, ')' :: rest | false, '\\' :: ')' :: rest => return (.group (groups + 1) body, count, rest)
      | _, _ => throw .openGroup
    | none =>
      match cs with
      | [] => .error .other
      | '.' :: r => .ok (.any, groups, r)
      | '[' :: '^' :: r => (readSet true [] r).map fun (ranges, r) => (.set true ranges, groups, r)
      | '[' :: r => (readSet true [] r).map fun (ranges, r) => (.set false ranges, groups, r)
      | '^' :: r => .ok (if extended || first then .lineStart else .char '^', groups, r)
      | '$' :: r => .ok (if extended || atEnd extended r then .lineEnd else .char '$', groups, r)
      | ['\\'] => .error .trailingBackslash
      | '\\' :: c :: r =>
        if !extended && c = '\x7b' then .error .openBounds
        else if Bytes.isDigit c && groups < c.toNat - '0'.toNat then .error .badReference
        else .ok (escape c, groups, r)
      | c :: r => .ok (.char c, groups, r)

end

def parse (extended : Bool) (cs : List Char) : Parse Regex := do
  let (r, _, rest) ← readChoice (3 * cs.length + 4) extended 0 cs
  if rest.isEmpty then return r else throw .strayClose

def literal (cs : List Char) : Regex := cs.foldr (fun c r => .sequence (.char c) r) .empty

structure Position where
  before : Option Char
  index : Nat
  rest : Bytes
  groups : List (Nat × Bytes)

def isWordChar (c : Char) : Bool := inRanges wordRanges c

def Position.next? (p : Position) (accepts : Char → Bool) : Option Position :=
  match p.rest with
  | c :: r => if accepts c then some { p with before := some c, index := p.index + 1, rest := r } else none
  | [] => none

def Position.skip (p : Position) (n : Nat) : Position :=
  { p with before := (p.rest.take n).getLast?.or p.before, index := p.index + n, rest := p.rest.drop n }

def fold (ignoreCase : Bool) (c : Char) : Char := if ignoreCase then c.toLower else c

/-- Of two outcomes the one that ends later, on a tie the first; nothing ends behind the last byte. -/
def longer (first : Option Position) (second : Unit → Option Position) : Option Position :=
  match first with
  | none => second ()
  | some p =>
    if p.rest.isEmpty then some p
    else match second () with
      | some q => if p.index < q.index then some q else some p
      | none => some p

def run (fuel : Nat) (ignoreCase : Bool) (r : Regex) (p : Position)
    (k : Position → Option Position) : Option Position :=
  match fuel with
  | 0 => none
  | fuel + 1 =>
    match r with
    | .empty => k p
    | .char c => (p.next? fun x => fold ignoreCase x = fold ignoreCase c) >>= k
    | .any => (p.next? fun _ => true) >>= k
    | .set negated ranges =>
      (p.next? fun x =>
        (inRanges ranges x || (ignoreCase && (inRanges ranges x.toLower || inRanges ranges x.toUpper)))
          != negated) >>= k
    | .lineStart => if p.index = 0 then k p else none
    | .lineEnd => if p.rest.isEmpty then k p else none
    | .wordEdge => if p.before.any isWordChar != p.rest.head?.any isWordChar then k p else none
    | .group n body =>
      run fuel ignoreCase body p fun q =>
        k { q with groups := (n, p.rest.take (q.index - p.index)) :: q.groups }
    | .reference n =>
      let part := (p.groups.lookup n).getD []
      if part.isPrefixOf p.rest then k (p.skip part.length) else none
    | .sequence a b => run fuel ignoreCase a p fun q => run fuel ignoreCase b q k
    | .choice a b => longer (run fuel ignoreCase a p k) fun _ => run fuel ignoreCase b p k
    | .repeated body least most =>
      if most = some 0 then k p
      else
        let more := run fuel ignoreCase body p fun q =>
          if q.index = p.index then none
          else run fuel ignoreCase (.repeated body (least - 1) (most.map (· - 1))) q k
        longer more fun _ => (if least = 0 then k p else run fuel ignoreCase body p fun q =>
          if q.index = p.index then k q else none)

def size : Regex → Nat
  | .group _ r | .repeated r _ _ => r.size + 1
  | .sequence a b | .choice a b => a.size + b.size + 1
  | _ => 1

structure Match where
  start : Nat
  finish : Nat
  groups : List (Nat × Bytes)

def matchAt (ignoreCase : Bool) (r : Regex) (p : Position) : Option Match :=
  (run ((r.size + 2) * (p.rest.length + 3)) ignoreCase r p some).map fun q =>
    ⟨p.index, q.index, q.groups⟩

def find? (ignoreCase : Bool) (r : Regex) (before : Option Char) (index : Nat) (rest : Bytes) :
    Option Match :=
  (matchAt ignoreCase r ⟨before, index, rest, []⟩).or
    (match rest with
    | [] => none
    | c :: tail => find? ignoreCase r (some c) (index + 1) tail)

def occursIn (ignoreCase : Bool) (r : Regex) (line : Bytes) : Bool :=
  (find? ignoreCase r none 0 line).isSome

end Regex
end ConstraintDesk.Machine
