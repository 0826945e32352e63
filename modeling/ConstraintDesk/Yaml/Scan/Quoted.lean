import ConstraintDesk.Decimal.Binary64
import ConstraintDesk.Yaml.Fault
import ConstraintDesk.Yaml.Scan.Plain
/-! Quoted scalars. Between single quotes only the quote itself is written twice; between double
quotes a backslash starts an escape. -/
namespace ConstraintDesk.Yaml.Quoted

structure Run where
  done : List Char
  escapedBreak : Bool
  ahead : Cursor

def singleRun (done : List Char) (p : Place) : List Char → Run
  | [] => ⟨done, false, [], p⟩
  | '\'' :: '\'' :: r => singleRun ('\'' :: done) p.next.next r
  | c :: r =>
    if c = '\'' || isSpace c || isBreak c then ⟨done, false, c :: r, p⟩
    else singleRun (c :: done) p.next r

def escapeChar? : Char → Option Char
  | '0' => some '\x00'
  | 'a' => some '\x07'
  | 'b' => some '\x08'
  | 't' => some '\t'
  | '\t' => some '\t'
  | 'n' => some '\n'
  | 'v' => some '\x0b'
  | 'f' => some '\x0c'
  | 'r' => some '\r'
  | 'e' => some '\x1b'
  | ' ' => some ' '
  | '"' => some '"'
  | '/' => some '/'
  | '\\' => some '\\'
  | 'N' => some '\x85'
  | '_' => some '\xa0'
  | 'L' => some '\u2028'
  | 'P' => some '\u2029'
  | _ => none

def hexWidth? : Char → Option Nat
  | 'x' => some 2
  | 'u' => some 4
  | 'U' => some 8
  | _ => none

structure Hex where
  owed : Nat
  value : Nat
  began : Place

def isCodePoint (n : Nat) : Bool := n < 0xD800 || (0xE000 ≤ n && n ≤ 0x10FFFF)

def doubleRun (start : Place) (done : List Char) (hex : Option Hex) (p : Place) :
    List Char → Except Fault Run
  | [] =>
    match hex with
    | some h => .error (.inside .noHexNumber h.began .escape start)
    | none => .ok ⟨done, false, [], p⟩
  | c :: r =>
    match hex with
    | some h =>
      match Decimal.digitIn? 16 c with
      | none => .error (.inside .noHexNumber h.began .escape start)
      | some d =>
        let value := 16 * h.value + d
        if 1 < h.owed then doubleRun start done (some ⟨h.owed - 1, value, h.began⟩) p.next r
        else if isCodePoint value then doubleRun start (Char.ofNat value :: done) none p.next r
        else .error (.inside .badCodePoint h.began .escape start)
    | none =>
      if c = '"' || isSpace c || isBreak c then .ok ⟨done, false, c :: r, p⟩
      else if c = '\\' then
        match r with
        | [] => .error (.inside .unknownEscape p .escape start)
        | e :: r' =>
          if isBreak e then .ok ⟨done, true, (Cursor.mk (e :: r') p.next).skipBreak⟩
          else match escapeChar? e, hexWidth? e with
            | some x, _ => doubleRun start (x :: done) none p.next.next r'
            | none, some n => doubleRun start done (some ⟨n, 0, p.next.next⟩) p.next.next r'
            | none, none => .error (.inside .unknownEscape p .escape start)
      else doubleRun start (c :: done) none p.next r

def runs (single : Bool) (start : Place) :
    Nat → List Char → Cursor → Except Fault (List Char × Cursor)
  | 0, _, c => .error (.inside .endInQuotes c.place .quotedScalar start)
  | fuel + 1, done, c =>
    if c.atDocumentMark then .error (.inside .documentMarkInQuotes c.place .quotedScalar start)
    else if c.atEnd then .error (.inside .endInQuotes c.place .quotedScalar start)
    else do
      let run ← if single then .ok (singleRun done c.place c.rest)
        else doubleRun start done none c.place c.rest
      if run.ahead.peek = some (if single then '\'' else '"') then
        .ok (run.done.reverse, run.ahead.skip)
      else
        match (if run.escapedBreak then Gap.escaped else .empty).scan 0 run.ahead.place run.ahead.rest with
        | .error p => .error (.inside .tabInPlain p .quotedScalar start)
        | .ok (gap, c') => runs single start fuel (gap.text.reverse ++ run.done) c'

def scan (single : Bool) (c : Cursor) : Except Fault (List Char × Cursor) :=
  runs single c.place c.rest.length [] c.skip

end ConstraintDesk.Yaml.Quoted
