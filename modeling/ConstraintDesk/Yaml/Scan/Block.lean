import ConstraintDesk.Decimal.Binary64
import ConstraintDesk.Yaml.Fault
/-! Block scalars: a header, then lines indented alike. The literal style keeps line breaks; the
folded style joins lines that start without a blank. The header says what becomes of the breaks at
the end, and may give the indentation. -/
namespace ConstraintDesk.Yaml.Block

inductive Chomp where
  | strip
  | clip
  | keep
  deriving DecidableEq, Repr

structure Header where
  chomp : Chomp
  increment : Option Nat

def chomp? (c : Cursor) : Option Chomp :=
  match c.peek with
  | some '+' => some .keep
  | some '-' => some .strip
  | _ => none

def increment (start : Place) (c : Cursor) : Except Fault (Option Nat × Cursor) :=
  match c.peek with
  | some d =>
    if d = '0' then .error (.inside .zeroIndentation c.place .blockScalar start)
    else if Decimal.isDigit d then .ok (some (Decimal.digitValue d), c.skip)
    else .ok (none, c)
  | none => .ok (none, c)

def header (start : Place) (c : Cursor) : Except Fault (Header × Cursor) := do
  let (header, c) ← match chomp? c with
    | some chomp => do
      let (n, c) ← increment start c.skip
      pure (Header.mk chomp n, c)
    | none => do
      let (n, c) ← increment start c
      match n, chomp? c with
      | some n, some chomp => pure (Header.mk chomp (some n), c.skip)
      | n, _ => pure (Header.mk .clip n, c)
  let c := c.skipWhile isSpace
  let c := if c.peek = some '#' then c.skipWhile (!isBreak ·) else c
  if c.atEnd || c.atBreak then .ok (header, c.skipBreak)
  else .error (.inside .noDirectiveEnd c.place .blockScalar start)

structure Breaks where
  breaks : List Char
  finish : Place
  widest : Nat
  ahead : Cursor

def breaks (start : Place) (indent : Option Nat) :
    Nat → Breaks → Except Fault Breaks
  | 0, b => .ok b
  | fuel + 1, b =>
    let c := b.ahead
    let spaces := (c.rest.takeWhile (· = ' ')).length
    let room := match indent with
      | none => spaces
      | some n => min spaces (n - c.place.column)
    let c := Cursor.skipMany room c
    let widest := max b.widest c.place.column
    if c.peek = some '\t' && indent.all (c.place.column < ·) then
      .error (.inside .tabInBlock c.place .blockScalar start)
    else match c.peek with
      | some x =>
        if isBreak x then
          let c := c.skipBreak
          breaks start indent fuel ⟨b.breaks ++ [breakText x], c.place, widest, c⟩
        else .ok { b with widest, ahead := c }
      | none => .ok { b with widest, ahead := c }

def emptyLines (start : Place) (indent : Option Nat) (c : Cursor) : Except Fault Breaks :=
  breaks start indent (c.rest.length + 1) ⟨[], c.place, 0, c⟩

structure Body where
  text : List Char
  lineBreak : List Char
  later : List Char
  startsBlank : Bool
  finish : Place
  ahead : Cursor

def folds (literal : Bool) (b : Body) (blank : Bool) : Bool :=
  !literal && b.lineBreak = ['\n'] && !b.startsBlank && !blank

def lines (literal : Bool) (start : Place) (indent : Nat) :
    Nat → Body → Except Fault Body
  | 0, b => .ok b
  | fuel + 1, b =>
    let c := b.ahead
    if c.place.column ≠ indent || c.atEnd then .ok b
    else do
      let blank := c.atSpace
      let between :=
        if folds literal b blank then (if b.later.isEmpty then [' '] else b.later)
        else b.lineBreak ++ b.later
      let line := c.rest.takeWhile (!isBreak ·)
      let c := c.skipWhile (!isBreak ·)
      let lineBreak := (c.peek.map breakText).toList
      let next ← emptyLines start (some indent) c.skipBreak
      lines literal start indent fuel
        ⟨b.text ++ between ++ line, lineBreak, next.breaks, blank, next.finish, next.ahead⟩

def scan (literal : Bool) (parent : Int) (c : Cursor) :
    Except Fault (List Char × Place × Cursor) := do
  let start := c.place
  let (header, c) ← header start c.skip
  let given := header.increment.map fun n => if 0 ≤ parent then parent.toNat + n else n
  let first ← emptyLines start given c
  let indent := given.getD (max (max first.widest (parent + 1).toNat) 1)
  let body ← lines literal start indent (c.rest.length + 1)
    ⟨[], [], first.breaks, false, first.finish, first.ahead⟩
  let tail := match header.chomp with
    | .strip => []
    | .clip => body.lineBreak
    | .keep => body.lineBreak ++ body.later
  return (body.text ++ tail, body.finish, body.ahead)

end ConstraintDesk.Yaml.Block
