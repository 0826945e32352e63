import ConstraintDesk.Yaml.Scan.Block
import ConstraintDesk.Yaml.Scan.Name
import ConstraintDesk.Yaml.Scan.Plain
import ConstraintDesk.Yaml.Scan.Quoted
/-! From characters to tokens. A key without a question mark is recognised only at its colon, so its
tokens are put in afterwards, before the token where the key began. A text that breaks off in a
fault still has tokens: those that do not depend on what comes later. -/
namespace ConstraintDesk.Yaml

/-- Where a key may have begun: before the token `number`. A required key is one that nothing else
can be; it must turn out to be a key. -/
structure KeyStart where
  number : Nat
  place : Place
  required : Bool
  deriving Repr

structure Scan where
  ahead : Cursor
  tokens : List Token
  count : Nat
  depth : Nat
  indent : Int
  indents : List Int
  keyAllowed : Bool
  keys : List (Option KeyStart)
  ended : Bool

namespace Scan

def start (cs : List Char) : Scan :=
  ⟨.ofText cs, [⟨.streamStart, .start, .start⟩], 1, 0, -1, [], true, [none], false⟩

def place (s : Scan) : Place := s.ahead.place

def push (s : Scan) (t : Token) : Scan := { s with tokens := t :: s.tokens, count := s.count + 1 }

def insert (s : Scan) (number : Nat) (t : Token) : Scan :=
  let later := s.count - number
  { s with tokens := s.tokens.take later ++ t :: s.tokens.drop later, count := s.count + 1 }

def pushMark (s : Scan) (kind : TokenKind) (width : Nat) : Scan :=
  let ahead := Cursor.skipMany width s.ahead
  { s.push ⟨kind, s.place, ahead.place⟩ with ahead }

def allowKey (s : Scan) (b : Bool) : Scan := { s with keyAllowed := b }

def isStale (p : Place) (k : KeyStart) : Bool :=
  k.place.line < p.line || k.place.index + 1024 < p.index

def lostKey (s : Scan) (k : KeyStart) : Fault :=
  .inside .noKeyColon s.place .simpleKey k.place

def dropStale (s : Scan) : Except Fault Scan :=
  match s.keys.reverse.findSome? (fun k => k.filter fun k => isStale s.place k && k.required) with
  | some k => .error (s.lostKey k)
  | none => .ok { s with keys := s.keys.map fun k => k.filter fun k => !isStale s.place k }

def dropKey (s : Scan) : Except Fault Scan :=
  match s.keys with
  | some k :: outer => if k.required then .error (s.lostKey k) else .ok { s with keys := none :: outer }
  | _ => .ok s

def noteKey (s : Scan) : Except Fault Scan := do
  if !s.keyAllowed then return s
  let required := s.depth = 0 && s.indent = s.place.column
  let s ← s.dropKey
  return { s with keys := some ⟨s.count, s.place, required⟩ :: s.keys.tail }

def openBlock (s : Scan) (column : Nat) (number : Option Nat) (kind : TokenKind) (p : Place) : Scan :=
  if s.depth = 0 && s.indent < column then
    let s := { s with indents := s.indent :: s.indents, indent := column }
    match number with
    | none => s.push ⟨kind, p, p⟩
    | some n => s.insert n ⟨kind, p, p⟩
  else s

def closeBlocks (column : Int) (s : Scan) : List Int → Scan
  | [] => s
  | outer :: rest =>
    if column < s.indent then
      let s := s.push ⟨.blockEnd, s.place, s.place⟩
      closeBlocks column { s with indent := outer, indents := rest } rest
    else s

def close (s : Scan) (column : Int) : Scan :=
  if s.depth = 0 then closeBlocks column s s.indents else s

def toToken : Nat → Scan → Scan
  | 0, s => s
  | fuel + 1, s =>
    let c := if s.place.index = 0 && s.ahead.peek = some '\uFEFF' then s.ahead.skip else s.ahead
    let tabs := 0 < s.depth || !s.keyAllowed
    let c := c.skipWhile fun x => x = ' ' || (tabs && x = '\t')
    let c := if c.peek = some '#' then c.skipWhile (!isBreak ·) else c
    if c.atBreak then
      toToken fuel { s with ahead := c.skipBreak, keyAllowed := s.keyAllowed || s.depth = 0 }
    else { s with ahead := c }

def endStream (s : Scan) : Except Fault Scan := do
  let p := s.place
  let s :=
    if p.column = 0 then s else { s with ahead := ⟨s.ahead.rest, ⟨p.index, p.line + 1, 0⟩⟩ }
  let s ← (s.close (-1)).dropKey
  return { (s.allowKey false).push ⟨.streamEnd, s.place, s.place⟩ with ended := true }

def scanDirective (s : Scan) : Except Fault Scan := do
  let s ← (s.close (-1)).dropKey
  let (t, ahead) ← Name.directive s.ahead
  return { (s.allowKey false).push t with ahead }

def documentMark (s : Scan) (kind : TokenKind) : Except Fault Scan := do
  let s ← (s.close (-1)).dropKey
  return (s.allowKey false).pushMark kind 3

def openFlow (s : Scan) (kind : TokenKind) : Except Fault Scan := do
  let s ← s.noteKey
  return { (s.allowKey true).pushMark kind 1 with depth := s.depth + 1, keys := none :: s.keys }

def closeFlow (s : Scan) (kind : TokenKind) : Except Fault Scan := do
  let s ← s.dropKey
  let s := if s.depth = 0 then s else { s with depth := s.depth - 1, keys := s.keys.tail }
  return (s.allowKey false).pushMark kind 1

def flowEntry (s : Scan) : Except Fault Scan := do
  return ((← s.dropKey).allowKey true).pushMark .flowEntry 1

def openEntry (s : Scan) (problem : Problem) (kind : TokenKind) : Except Fault Scan :=
  if 0 < s.depth then .ok s
  else if s.keyAllowed then .ok (s.openBlock s.place.column none kind s.place)
  else .error (.alone problem s.place)

def blockEntry (s : Scan) : Except Fault Scan := do
  let s ← s.openEntry .blockEntryHere .blockSequenceStart
  return ((← s.dropKey).allowKey true).pushMark .blockEntry 1

def key (s : Scan) : Except Fault Scan := do
  let s ← s.openEntry .keyHere .blockMappingStart
  let s ← s.dropKey
  return (s.allowKey (s.depth = 0)).pushMark .key 1

def value (s : Scan) : Except Fault Scan := do
  match s.keys with
  | some k :: outer =>
    let s := s.insert k.number ⟨.key, k.place, k.place⟩
    let s := s.openBlock k.place.column (some k.number) .blockMappingStart k.place
    return ({ s with keys := none :: outer }.allowKey false).pushMark .value 1
  | _ =>
    let s ← s.openEntry .valueHere .blockMappingStart
    return (s.allowKey (s.depth = 0)).pushMark .value 1

def anchor (s : Scan) (isAlias : Bool) : Except Fault Scan := do
  let s ← s.noteKey
  let (t, ahead) ← Name.anchor isAlias s.ahead
  return { (s.allowKey false).push t with ahead }

def tag (s : Scan) : Except Fault Scan := do
  let s ← s.noteKey
  let (t, ahead) ← Name.tag (0 < s.depth) s.ahead
  return { (s.allowKey false).push t with ahead }

def block (s : Scan) (literal : Bool) : Except Fault Scan := do
  let s ← s.dropKey
  let (text, finish, ahead) ← Block.scan literal s.indent s.ahead
  let kind := TokenKind.scalar text (if literal then .literal else .folded)
  return { (s.allowKey true).push ⟨kind, s.place, finish⟩ with ahead }

def quoted (s : Scan) (single : Bool) : Except Fault Scan := do
  let s ← s.noteKey
  let (text, ahead) ← Quoted.scan single s.ahead
  let kind := TokenKind.scalar text (if single then .singleQuoted else .doubleQuoted)
  return { (s.allowKey false).push ⟨kind, s.place, ahead.place⟩ with ahead }

def plain (s : Scan) : Except Fault Scan := do
  let s ← s.noteKey
  let r ← Plain.scan (0 < s.depth) (s.indent + 1) s.ahead
  return { (s.allowKey r.breaksLine).push ⟨.scalar r.text .plain, s.place, r.finish⟩ with
    ahead := r.ahead }

def startsPlain (inFlow : Bool) (x : Char) (r : List Char) : Bool :=
  !(isSpace x || isBreak x || "-?:,[]\x7b\x7d#&*!|>'\"%@`".toList.contains x)
    || (x = '-' && !r.head?.any isSpace)
    || (!inFlow && (x = '?' || x = ':') && !endsWord r)

def fetch (fuel : Nat) (s : Scan) : Except Fault Scan := do
  let s := toToken fuel s
  let s ← s.dropStale
  let s := s.close s.place.column
  let inFlow := 0 < s.depth
  match s.ahead.rest with
  | [] => s.endStream
  | x :: r =>
    let word := endsWord r
    if s.place.column = 0 && x = '%' then s.scanDirective
    else if s.ahead.atLineMark '-' then s.documentMark .documentStart
    else if s.ahead.atLineMark '.' then s.documentMark .documentEnd
    else if x = '[' then s.openFlow .flowSequenceStart
    else if x = '\x7b' then s.openFlow .flowMappingStart
    else if x = ']' then s.closeFlow .flowSequenceEnd
    else if x = '\x7d' then s.closeFlow .flowMappingEnd
    else if x = ',' then s.flowEntry
    else if x = '-' && word then s.blockEntry
    else if x = '?' && (inFlow || word) then s.key
    else if x = ':' && (inFlow || word) then s.value
    else if x = '*' then s.anchor true
    else if x = '&' then s.anchor false
    else if x = '!' then s.tag
    else if x = '|' && !inFlow then s.block true
    else if x = '>' && !inFlow then s.block false
    else if x = '\'' then s.quoted true
    else if x = '"' then s.quoted false
    else if startsPlain inFlow x r then s.plain
    else .error (.inside .noToken s.place .nextToken s.place)

def settled (s : Scan) : List Token :=
  let n := s.keys.foldl (fun n k => match k with | some k => min n k.number | none => n) s.count
  (s.tokens.drop (s.count - n)).reverse

/-- Reads on to the end of the text or to a fault. Every turn but the last reads a character. -/
def run : Nat → Scan → List Token × Option Fault
  | 0, s => (s.settled, none)
  | fuel + 1, s =>
    match (s.fetch (fuel + 1) >>= dropStale) with
    | .error f => (s.settled, some f)
    | .ok s' => if s'.ended then (s'.tokens.reverse, none) else run fuel s'

end Scan

def isAllowed (c : Char) : Bool :=
  let n := c.toNat
  n = 0x09 || n = 0x0A || n = 0x0D || (0x20 ≤ n && n ≤ 0x7E) || n = 0x85 || (0xA0 ≤ n && n ≤ 0xFFFD)
    || 0x10000 ≤ n

def tokens (text : List Char) : List Token × Option Fault :=
  let before := text.takeWhile isAllowed
  if before.length < text.length then
    ([⟨.streamStart, .start, .start⟩],
      some ⟨.controlCharacter, .start, none, Text.byteLength before⟩)
  else
    let cs := if text.head? = some '\uFEFF' then text.tail else text
    Scan.run (cs.length + 2) (.start cs)

end ConstraintDesk.Yaml
