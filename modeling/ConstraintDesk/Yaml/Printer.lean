import ConstraintDesk.Json.Value
import ConstraintDesk.Yaml.Resolve
import ConstraintDesk.Yaml.Token
/-! Writing a structured value as a YAML document. A text is plain if it then reads back as itself,
between single quotes if that is enough, as a block if it has line feeds, and else between double quotes.
Each level is two columns further in, but a sequence under a key starts at the column of the key. Lines are
never wrapped. -/
namespace ConstraintDesk.Yaml

structure Traits where
  indicator : Bool
  lineBreak : Bool
  special : Bool
  spaceAtStart : Bool
  spaceAtEnd : Bool
  breakAtEdge : Bool
  breakSpace : Bool
  spaceBreak : Bool

namespace Traits

def isPrintable (c : Char) : Bool :=
  let n := c.toNat
  n = 0x0A || (0x20 ≤ n && n ≤ 0x7E) || (0xA0 ≤ n && n ≤ 0xFFFD && n ≠ 0xFEFF) || 0x10000 ≤ n

def startSigns : List Char := "#,[]\x7b\x7d&*!|>'\"%@`".toList

def isSign (first behindBlank : Bool) (c : Char) (r : List Char) : Bool :=
  if first then startSigns.contains c || ((c = '?' || c = ':' || c = '-') && endsWord r)
  else (c = ':' && endsWord r) || (c = '#' && behindBlank)

def anySign (first behindBlank : Bool) : List Char → Bool
  | [] => false
  | c :: r => isSign first behindBlank c r || anySign false (isSpace c || isBreak c) r

def isMark (x : Char) (cs : List Char) : Bool := cs.take 3 = [x, x, x]

def anyPair (p : Char → Char → Bool) : List Char → Bool
  | a :: b :: r => p a b || anyPair p (b :: r)
  | _ => false

def of (cs : List Char) : Traits where
  indicator := isMark '-' cs || isMark '.' cs || anySign true true cs
  lineBreak := cs.any isBreak
  special := cs.any (!isPrintable ·)
  spaceAtStart := cs.head? = some ' '
  spaceAtEnd := cs.getLast? = some ' '
  breakAtEdge := cs.head?.any isBreak || cs.getLast?.any isBreak
  breakSpace := anyPair (fun a b => isBreak a && b = ' ') cs
  spaceBreak := anyPair (fun a b => a = ' ' && isBreak b) cs

def plainFits (t : Traits) : Bool :=
  !(t.spaceAtStart || t.spaceAtEnd || t.lineBreak || t.special || t.indicator)

def singleFits (t : Traits) : Bool := !(t.breakSpace || t.spaceBreak || t.special)

def blockFits (t : Traits) : Bool := !(t.spaceAtEnd || t.spaceBreak || t.special)

end Traits

def looksResolved (cs : List Char) : Bool :=
  (match Resolved.plain cs with
    | .text => false
    | _ => true) || Resolved.isZeroPadded cs

/-- The style of a text; on the line of a key no block can stand. -/
def styleOf (onKeyLine : Bool) (cs : List Char) : ScalarStyle :=
  let t := Traits.of cs
  if cs.contains '\n' then if t.blockFits && !onKeyLine then .literal else .doubleQuoted
  else if onKeyLine && t.lineBreak then .doubleQuoted
  else if t.plainFits && !looksResolved cs then .plain
  else if t.singleFits then .singleQuoted
  else .doubleQuoted

structure Sheet where
  text : String
  column : Nat
  spaced : Bool
  fresh : Bool

namespace Sheet

def blank : Sheet := ⟨"", 0, true, true⟩

def put (s : Sheet) (c : Char) : Sheet := { s with text := s.text.push c, column := s.column + 1 }

def puts (s : Sheet) (cs : List Char) : Sheet := cs.foldl put s

def putBreak (s : Sheet) (c : Char) : Sheet := { s with text := s.text.push c, column := 0 }

def pad (s : Sheet) (column : Nat) : Sheet := s.puts (List.replicate (column - s.column) ' ')

def indentTo (s : Sheet) (column : Nat) : Sheet :=
  let s :=
    if !s.fresh || column < s.column || (s.column = column && !s.spaced) then s.putBreak '\n' else s
  { s.pad column with spaced := true, fresh := true }

def sign (s : Sheet) (cs : List Char) (apart keepsFresh : Bool) : Sheet :=
  let s := if apart && !s.spaced then s.put ' ' else s
  { s.puts cs with spaced := false, fresh := s.fresh && keepsFresh }

def plain (s : Sheet) (cs : List Char) : Sheet :=
  let s := if s.spaced then s else s.put ' '
  { s.puts cs with spaced := false, fresh := false }

def singleBody (indent : Nat) (s : Sheet) (afterBreak : Bool) : List Char → Sheet
  | [] => if afterBreak then s.indentTo indent else s
  | c :: r =>
    if isBreak c then singleBody indent { s.putBreak c with fresh := true } true r
    else
      let s := if afterBreak && c ≠ ' ' then s.indentTo indent else s
      let s := s.puts (if c = '\'' then ['\'', '\''] else [c])
      singleBody indent (if c = ' ' then s else { s with fresh := false }) (afterBreak && c = ' ') r

def single (s : Sheet) (indent : Nat) (cs : List Char) : Sheet :=
  (singleBody indent (s.sign ['\''] true false) false cs).sign ['\''] false false

def hexEscape (letter : Char) (width n : Nat) : List Char :=
  '\\' :: letter :: (Json.hexDigits width n).map Char.toUpper

def escapeChar (c : Char) : List Char :=
  let n := c.toNat
  if c = '"' || c = '\\' then ['\\', c]
  else if Traits.isPrintable c && !isBreak c then [c]
  else if n = 0 then ['\\', '0']
  else if n = 7 then ['\\', 'a']
  else if n = 8 then ['\\', 'b']
  else if n = 9 then ['\\', 't']
  else if n = 10 then ['\\', 'n']
  else if n = 11 then ['\\', 'v']
  else if n = 12 then ['\\', 'f']
  else if n = 13 then ['\\', 'r']
  else if n = 27 then ['\\', 'e']
  else if n = 0x85 then ['\\', 'N']
  else if n = 0x2028 then ['\\', 'L']
  else if n = 0x2029 then ['\\', 'P']
  else if n ≤ 0xFF then hexEscape 'x' 2 n
  else if n ≤ 0xFFFF then hexEscape 'u' 4 n
  else hexEscape 'U' 8 n

def double (s : Sheet) (cs : List Char) : Sheet :=
  ((s.sign ['"'] true false).puts (cs.flatMap escapeChar)).sign ['"'] false false

def chompSign (cs : List Char) : List Char :=
  match cs.reverse with
  | a :: b :: _ => if !isBreak a then ['-'] else if isBreak b then ['+'] else []
  | [a] => if isBreak a then ['+'] else ['-']
  | [] => ['-']

def literalBody (indent : Nat) (s : Sheet) (afterBreak : Bool) : List Char → Sheet
  | [] => s
  | c :: r =>
    if isBreak c then literalBody indent { s.putBreak c with fresh := true } true r
    else
      let s := if afterBreak then s.indentTo indent else s
      literalBody indent { s.put c with fresh := false } false r

def literal (s : Sheet) (indent : Nat) (cs : List Char) : Sheet :=
  let hint := if cs.head?.any (fun c => c = ' ' || isBreak c) then ['2'] else []
  let s := (s.sign ['|'] true false).sign (hint ++ chompSign cs) false false
  literalBody indent { s.putBreak '\n' with fresh := true, spaced := true } true cs

def string (s : Sheet) (indent : Nat) (onKeyLine : Bool) (cs : List Char) : Sheet :=
  match styleOf onKeyLine cs with
  | .plain => s.plain cs
  | .singleQuoted => s.single indent cs
  | .literal | .folded => s.literal indent cs
  | .doubleQuoted => s.double cs

end Sheet

def spelling : Spelling := ⟨-5, 15, false, false⟩

def numberText : Number → List Char
  | .int i _ _ => Spelling.intDigits i
  | .float x _ => spelling.write x

def isShortKey (cs : List Char) : Bool := !cs.any isBreak && Text.byteLength cs ≤ 128

def inner : Option Nat → Nat
  | none => 0
  | some n => n + 2

def scalarIndent : Option Nat → Nat
  | none => 2
  | some n => n + 2

def writeKey (indent : Nat) (name : String) (s : Sheet) : Sheet :=
  let cs := name.toList
  let s := s.indentTo indent
  if isShortKey cs then (s.string (indent + 2) true cs).sign [':'] false false
  else
    let s := (s.sign ['?'] true true).string (indent + 2) false cs
    (s.indentTo indent).sign [':'] true true

mutual

def writeNode (indent : Option Nat) (underKey : Bool) (v : Json) (s : Sheet) : Sheet :=
  match v with
  | .null => s.plain "null".toList
  | .bool b => s.plain (if b then "true" else "false").toList
  | .number n => s.plain (numberText n)
  | .string t => s.string (scalarIndent indent) false t.toList
  | .array [] => (s.sign ['['] true false).sign [']'] false false
  | .object [] => (s.sign ['\x7b'] true false).sign ['\x7d'] false false
  | .array items =>
    writeItems (if underKey && !s.fresh then indent.getD 0 else inner indent) items s
  | .object fields => writeFields (inner indent) fields s

def writeItems (indent : Nat) (items : List Json) (s : Sheet) : Sheet :=
  match items with
  | [] => s
  | v :: rest =>
    writeItems indent rest (writeNode (some indent) false v ((s.indentTo indent).sign ['-'] true true))

def writeFields (indent : Nat) (fields : List (String × Json)) (s : Sheet) : Sheet :=
  match fields with
  | [] => s
  | (name, v) :: rest =>
    writeFields indent rest (writeNode (some indent) true v (writeKey indent name s))

end

def write (v : Json) : String := ((writeNode none false v Sheet.blank).indentTo 0).text

end ConstraintDesk.Yaml
