import ConstraintDesk.Text.Basic
/-! Places in a YAML text, and its tokens. Five characters break a line; a carriage return with the line
feed behind it is one break. Blocks that are marked by indentation alone have start and end tokens that
stand for no character. -/
namespace ConstraintDesk.Yaml

structure Place where
  index : Nat
  line : Nat
  column : Nat
  deriving DecidableEq, Repr, Inhabited

namespace Place

def start : Place := ⟨0, 0, 0⟩

def next (p : Place) : Place := ⟨p.index + 1, p.line, p.column + 1⟩

def nextLine (p : Place) (width : Nat) : Place := ⟨p.index + width, p.line + 1, 0⟩

def mark (p : Place) : Mark := ⟨p.line, p.column⟩

end Place

def isSpace (c : Char) : Bool := c = ' ' || c = '\t'

def isBreak (c : Char) : Bool :=
  c = '\n' || c = '\r' || c = '\x85' || c = '\u2028' || c = '\u2029'

def isNameChar (c : Char) : Bool := c.isAlphanum || c = '_' || c = '-'

def endsWord : List Char → Bool
  | [] => true
  | c :: _ => isSpace c || isBreak c

def breakText (c : Char) : Char := if c = '\u2028' || c = '\u2029' then c else '\n'

structure Cursor where
  rest : List Char
  place : Place

namespace Cursor

def ofText (cs : List Char) : Cursor := ⟨cs, .start⟩

def peek (c : Cursor) : Option Char := c.rest.head?

def skip (c : Cursor) : Cursor := ⟨c.rest.tail, c.place.next⟩

def skipMany : Nat → Cursor → Cursor
  | 0, c => c
  | n + 1, c => skipMany n c.skip

def skipWhile (p : Char → Bool) (c : Cursor) : Cursor :=
  let n := (c.rest.takeWhile p).length
  ⟨c.rest.dropWhile p, ⟨c.place.index + n, c.place.line, c.place.column + n⟩⟩

def skipBreak (c : Cursor) : Cursor :=
  match c.rest with
  | '\r' :: '\n' :: r => ⟨r, c.place.nextLine 2⟩
  | x :: r => if isBreak x then ⟨r, c.place.nextLine 1⟩ else c
  | [] => c

def atEnd (c : Cursor) : Bool := c.rest.isEmpty

def atBreak (c : Cursor) : Bool := c.peek.any isBreak

def atSpace (c : Cursor) : Bool := c.peek.any isSpace

def atLineMark (c : Cursor) (x : Char) : Bool :=
  c.place.column = 0 && (match c.rest with
    | a :: b :: d :: r => a = x && b = x && d = x && endsWord r
    | _ => false)

def atDocumentMark (c : Cursor) : Bool := c.atLineMark '-' || c.atLineMark '.'

end Cursor

inductive ScalarStyle where
  | plain
  | singleQuoted
  | doubleQuoted
  | literal
  | folded
  deriving DecidableEq, Repr

inductive TokenKind where
  | streamStart
  | streamEnd
  | version (major minor : Nat)
  | tagDirective (handle uri : List UInt8)
  | documentStart
  | documentEnd
  | blockSequenceStart
  | blockMappingStart
  | blockEnd
  | flowSequenceStart
  | flowSequenceEnd
  | flowMappingStart
  | flowMappingEnd
  | blockEntry
  | flowEntry
  | key
  | value
  | alias (name : List Char)
  | anchor (name : List Char)
  | tag (handle suffix : List UInt8)
  | scalar (text : List Char) (style : ScalarStyle)
  deriving DecidableEq, Repr

structure Token where
  kind : TokenKind
  start : Place
  finish : Place
  deriving Repr

end ConstraintDesk.Yaml
