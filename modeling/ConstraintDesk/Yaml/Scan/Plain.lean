import ConstraintDesk.Yaml.Fault
import ConstraintDesk.Yaml.Token
/-! Plain scalars, over any number of lines, and white space inside a scalar. On one line that is kept;
line breaks fold: one becomes a space, of more the first is dropped. Blanks around the breaks are lost. -/
namespace ConstraintDesk.Yaml

structure Gap where
  blanks : List Char
  first : Option (List Char)
  later : List Char
  deriving Repr

namespace Gap

def empty : Gap := ⟨[], none, []⟩

def escaped : Gap := ⟨[], some [], []⟩

def isEmpty (g : Gap) : Bool := g.blanks.isEmpty && g.first.isNone

def breaksLine (g : Gap) : Bool := g.first.isSome

def addBlank (g : Gap) (c : Char) : Gap :=
  if g.breaksLine then g else { g with blanks := c :: g.blanks }

def addBreak (g : Gap) (c : Char) : Gap :=
  match g.first with
  | none => ⟨[], some [breakText c], []⟩
  | some _ => { g with later := breakText c :: g.later }

def text (g : Gap) : List Char :=
  match g.first with
  | none => g.blanks.reverse
  | some first =>
    if first = ['\n'] then (if g.later.isEmpty then [' '] else g.later.reverse)
    else first ++ g.later.reverse

def scan (limit : Int) (g : Gap) (p : Place) : List Char → Except Place (Gap × Cursor)
  | [] => .ok (g, ⟨[], p⟩)
  | '\r' :: '\n' :: r => scan limit (g.addBreak '\n') (p.nextLine 2) r
  | c :: r =>
    if isSpace c then
      if g.breaksLine && p.column < limit && c = '\t' then .error p
      else scan limit (g.addBlank c) p.next r
    else if isBreak c then scan limit (g.addBreak c) (p.nextLine 1) r
    else .ok (g, ⟨c :: r, p⟩)

end Gap
end ConstraintDesk.Yaml

namespace ConstraintDesk.Yaml.Plain

def isFlowEnd (c : Char) : Bool :=
  c = ',' || c = '[' || c = ']' || c = '\x7b' || c = '\x7d'

def isLostColon (c : Char) (r : List Char) : Bool :=
  c = ':' && (match r with
    | d :: _ => isFlowEnd d || d = '?'
    | [] => false)

def run (inFlow : Bool) (done : List Char) (p : Place) :
    List Char → Except Place (List Char × Cursor)
  | [] => .ok (done, ⟨[], p⟩)
  | c :: r =>
    if isSpace c || isBreak c then .ok (done, ⟨c :: r, p⟩)
    else if inFlow && isLostColon c r then .error p
    else if (c = ':' && endsWord r) || (inFlow && isFlowEnd c) then .ok (done, ⟨c :: r, p⟩)
    else run inFlow (c :: done) p.next r

structure Reading where
  text : List Char
  finish : Place
  ahead : Cursor
  breaksLine : Bool

def runs (inFlow : Bool) (indent : Int) (start : Place) :
    Nat → List Char → Place → Gap → Cursor → Except Fault Reading
  | 0, done, finish, gap, c => .ok ⟨done.reverse, finish, c, gap.breaksLine⟩
  | fuel + 1, done, finish, gap, c =>
    if c.atDocumentMark || c.peek = some '#' then .ok ⟨done.reverse, finish, c, gap.breaksLine⟩
    else
      match run inFlow [] c.place c.rest with
      | .error p => .error (.inside .colonInPlain p .plainScalar start)
      | .ok (word, c') =>
        let done := if word.isEmpty then done else word ++ gap.text.reverse ++ done
        let finish := if word.isEmpty then finish else c'.place
        let gap := if word.isEmpty then gap else .empty
        if !(c'.atSpace || c'.atBreak) then .ok ⟨done.reverse, finish, c', gap.breaksLine⟩
        else
          match gap.scan indent c'.place c'.rest with
          | .error p => .error (.inside .tabInPlain p .plainScalar start)
          | .ok (gap, c'') =>
            if !inFlow && c''.place.column < indent then
              .ok ⟨done.reverse, finish, c'', gap.breaksLine⟩
            else runs inFlow indent start fuel done finish gap c''

def scan (inFlow : Bool) (indent : Int) (c : Cursor) : Except Fault Reading :=
  runs inFlow indent c.place (c.rest.length + 1) [] c.place .empty c

end ConstraintDesk.Yaml.Plain
