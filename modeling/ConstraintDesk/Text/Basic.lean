/-! Texts: positions and malformed places in them, blanks, occurrences, and their bytes. A mark counts
lines and characters from zero, an offset the bytes of the UTF-8 form. Only a line feed ends a line; a
carriage return before it is dropped from the line's text and still counts in the column. Reading bytes
never fails: what starts like an encoded character and breaks off becomes one replacement character, and
the byte that broke it is read afresh. -/
namespace ConstraintDesk

-- Sums start from the zero of the core library, whatever else is imported.
attribute [local instance (high)] Zero.ofOfNat0

structure Mark where
  line : Nat
  column : Nat
  deriving DecidableEq, Repr, Inhabited

namespace Mark

def origin : Mark := ⟨0, 0⟩

def step (m : Mark) (c : Char) : Mark :=
  if c = '\n' then ⟨m.line + 1, 0⟩ else ⟨m.line, m.column + 1⟩

def advance (m : Mark) (cs : List Char) : Mark := cs.foldl step m

def behind (cs : List Char) : Mark := origin.advance cs

def ofOneBased (line column : Nat) : Mark := ⟨line - 1, column - 1⟩

def down (m : Mark) (lines : Nat) : Mark := ⟨m.line + lines, m.column⟩

end Mark

namespace Text

def byteLength (cs : List Char) : Nat := (cs.map Char.utf8Size).sum

def takeBytes : Nat → List Char → List Char
  | _, [] => []
  | n, c :: r => if c.utf8Size ≤ n then c :: takeBytes (n - c.utf8Size) r else []

def splitOn (separator : Char) (cs : List Char) : List (List Char) :=
  cs.foldr (fun c pieces =>
    if c = separator then [] :: pieces
    else match pieces with
      | [] => [[c]]
      | piece :: later => (c :: piece) :: later) [[]]

def dropReturn (cs : List Char) : List Char :=
  if cs.getLast? = some '\r' then cs.dropLast else cs

/-- The lines of a text: a line feed at the end leaves an empty last line. -/
def lines (cs : List Char) : List (List Char) := (splitOn '\n' cs).map dropReturn

end Text

def Mark.ofOffset (cs : List Char) (offset : Nat) : Mark := behind (Text.takeBytes offset cs)

structure SyntaxError where
  reason : String
  mark : Mark
  deriving DecidableEq, Repr

namespace SyntaxError

def message (e : SyntaxError) : String :=
  s!"{e.reason} at line {e.mark.line + 1} column {e.mark.column + 1}"

def down (e : SyntaxError) (lines : Nat) : SyntaxError := { e with mark := e.mark.down lines }

end SyntaxError
end ConstraintDesk

namespace ConstraintDesk.Text

/-- The characters with the Unicode property White_Space. -/
def isBlank (c : Char) : Bool :=
  let n := c.toNat
  (0x09 ≤ n && n ≤ 0x0D) || n == 0x20 || n == 0x85 || n == 0xA0 || n == 0x1680
    || (0x2000 ≤ n && n ≤ 0x200A) || n == 0x2028 || n == 0x2029 || n == 0x202F || n == 0x205F
    || n == 0x3000

def trimStart (cs : List Char) : List Char := cs.dropWhile isBlank

def trimEnd (cs : List Char) : List Char := (cs.reverse.dropWhile isBlank).reverse

def trim (cs : List Char) : List Char := trimEnd (trimStart cs)

def words (cs : List Char) : List (List Char) :=
  let (word, found) := cs.foldr (fun c (word, found) =>
    if isBlank c then ([], if word.isEmpty then found else word :: found) else (c :: word, found))
    ([], [])
  if word.isEmpty then found else word :: found

def oneLine (cs : List Char) : List Char := [' '].intercalate (words cs)

def dropPart? : List Char → List Char → Option (List Char)
  | [], cs => some cs
  | _ :: _, [] => none
  | p :: part, c :: cs => if p = c then dropPart? part cs else none

theorem dropPartSome {part cs r : List Char} (h : dropPart? part cs = some r) :
    cs = part ++ r := by
  fun_induction dropPart? part cs with
  | case1 cs => cases h; rfl
  | case2 => cases h
  | case3 part p cs ih => rw [List.cons_append, ← ih h]
  | case4 => cases h

def occursIn (part : List Char) : List Char → Bool
  | [] => part.isEmpty
  | c :: r => (dropPart? part (c :: r)).isSome || occursIn part r

def beforeLast? (part : List Char) : List Char → Option (List Char)
  | [] => if part.isEmpty then some [] else none
  | c :: r =>
    match beforeLast? part r with
    | some before => some (c :: before)
    | none => if (dropPart? part (c :: r)).isSome then some [] else none

end ConstraintDesk.Text

namespace ConstraintDesk.Utf8

def encode (cs : List Char) : List UInt8 := cs.flatMap String.utf8EncodeChar

structure Pending where
  bits : Nat
  owed : Nat
  least : UInt8
  greatest : UInt8
  deriving DecidableEq, Repr

structure Reading where
  done : List Char
  pending : Option Pending
  deriving Repr

def replacement : Char := '\uFFFD'

def begin (done : List Char) (b : UInt8) : Reading :=
  if b < 0x80 then ⟨Char.ofNat b.toNat :: done, none⟩
  else if 0xC2 ≤ b && b ≤ 0xDF then ⟨done, some ⟨b.toNat - 0xC0, 1, 0x80, 0xBF⟩⟩
  else if 0xE0 ≤ b && b ≤ 0xEF then
    ⟨done, some ⟨b.toNat - 0xE0, 2, if b = 0xE0 then 0xA0 else 0x80, if b = 0xED then 0x9F else 0xBF⟩⟩
  else if 0xF0 ≤ b && b ≤ 0xF4 then
    ⟨done, some ⟨b.toNat - 0xF0, 3, if b = 0xF0 then 0x90 else 0x80, if b = 0xF4 then 0x8F else 0xBF⟩⟩
  else ⟨replacement :: done, none⟩

def Reading.step (r : Reading) (b : UInt8) : Reading :=
  match r.pending with
  | none => begin r.done b
  | some p =>
    if p.least ≤ b && b ≤ p.greatest then
      let bits := p.bits * 64 + (b.toNat - 0x80)
      if p.owed ≤ 1 then ⟨Char.ofNat bits :: r.done, none⟩
      else ⟨r.done, some ⟨bits, p.owed - 1, 0x80, 0xBF⟩⟩
    else begin (replacement :: r.done) b

def Reading.finish (r : Reading) : List Char :=
  match r.pending with
  | none => r.done.reverse
  | some _ => (replacement :: r.done).reverse

def decode (bytes : List UInt8) : List Char := (bytes.foldl Reading.step ⟨[], none⟩).finish

end ConstraintDesk.Utf8
