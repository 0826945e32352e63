import ConstraintDesk.Decimal.Binary64
import ConstraintDesk.Json.Value
import ConstraintDesk.Text.Basic
/-! Reading JSON. Columns count bytes. A repeated key takes its last value at its first place. The
128th bracket that is open at once is refused. A number with a fraction or an exponent is its first
digits that fit 64 bits, times or over a power of ten, rounded at each step. -/
namespace ConstraintDesk.Json

inductive Fault where
  | endInList
  | endInObject
  | endInString
  | endInValue
  | missingColon
  | missingListComma
  | missingObjectComma
  | badWord
  | missingValue
  | badEscape
  | badNumber
  | hugeNumber
  | controlInString
  | keyNotString
  | loneSurrogate
  | trailingComma
  | trailingText
  | endOfEscape
  | tooDeep
  deriving DecidableEq, Repr

def Fault.message : Fault → String
  | .endInList => "EOF while parsing a list"
  | .endInObject => "EOF while parsing an object"
  | .endInString => "EOF while parsing a string"
  | .endInValue => "EOF while parsing a value"
  | .missingColon => "expected `:`"
  | .missingListComma => "expected `,` or `]`"
  | .missingObjectComma => "expected `,` or `\x7d`"
  | .badWord => "expected ident"
  | .missingValue => "expected value"
  | .badEscape => "invalid escape"
  | .badNumber => "invalid number"
  | .hugeNumber => "number out of range"
  | .controlInString => "control character (\\u0000-\\u001F) found while parsing a string"
  | .keyNotString => "key must be a string"
  | .loneSurrogate => "lone leading surrogate in hex escape"
  | .trailingComma => "trailing comma"
  | .trailingText => "trailing characters"
  | .endOfEscape => "unexpected end of hex escape"
  | .tooDeep => "recursion limit exceeded"

/-- A fault and where it was noticed: the line from zero and the number of bytes of it that were
looked at. -/
structure Failure where
  fault : Fault
  place : Mark
  deriving DecidableEq, Repr

def Failure.message (f : Failure) : String :=
  s!"{f.fault.message} at line {f.place.line + 1} column {f.place.column}"

attribute [local instance (high)] instPowNat

structure Cursor where
  rest : List Char
  place : Mark

namespace Cursor

def byteStep (m : Mark) (c : Char) : Mark :=
  if c = '\n' then ⟨m.line + 1, 0⟩ else ⟨m.line, m.column + c.utf8Size⟩

def placeAfter : Nat → Mark → List Char → Mark
  | 0, m, _ => m
  | _ + 1, m, [] => m
  | n + 1, m, c :: r =>
    if c.utf8Size ≤ n + 1 then placeAfter (n + 1 - c.utf8Size) (byteStep m c) r
    else ⟨m.line, m.column + (n + 1)⟩

def nextPlace (c : Cursor) : Mark := placeAfter 1 c.place c.rest

def advance (c : Cursor) : Cursor :=
  match c.rest with
  | [] => c
  | x :: r => ⟨r, byteStep c.place x⟩

def skip (p : Char → Bool) (c : Cursor) : Cursor :=
  ⟨c.rest.dropWhile p, (c.rest.takeWhile p).foldl byteStep c.place⟩

end Cursor

abbrev Reader := StateT Cursor (Except Failure)

namespace Reader

def failHere {α : Type} (f : Fault) : Reader α := fun c => .error ⟨f, c.place⟩

def failNext {α : Type} (f : Fault) : Reader α := fun c => .error ⟨f, c.nextPlace⟩

def peek : Reader (Option Char) := return (← get).rest.head?

def advance : Reader Unit := modify Cursor.advance

def isSpace (c : Char) : Bool := c = ' ' || c = '\n' || c = '\t' || c = '\r'

def peekToken : Reader (Option Char) := do
  modify (Cursor.skip isSpace)
  peek

def digits : Reader (List Char) := do
  let run := (← get).rest.takeWhile Decimal.isDigit
  modify (Cursor.skip Decimal.isDigit)
  return run

def word : List Char → Reader Unit
  | [] => return
  | w :: ws => do
    match ← peek with
    | none => failHere .endInValue
    | some c => if c = w then do advance; word ws else failNext .badWord

end Reader

namespace NumberText

def significand : Nat → Nat → List Char → Nat × Nat
  | n, taken, [] => (n, taken)
  | n, taken, c :: r =>
    let m := 10 * n + Decimal.digitValue c
    if m < 2 ^ (64 : Nat) then significand m (taken + 1) r else (n, taken)

def divide (x : Binary64) (power : Nat) : Binary64 :=
  if power ≤ 308 then x.overTen power
  else if x.code = 0 then x
  else divide (x.overTen 308) (power - 308)
termination_by power

def scale? (negative : Bool) (n : Nat) (power : Int) : Option Number :=
  let x := Binary64.ofRatio negative n 1
  let y :=
    if power < 0 then divide x power.natAbs
    else if power ≤ 308 then x.timesTen power.natAbs
    else if n = 0 then x
    else Binary64.infinity
  if f : y.isFinite then some (.float y f) else none

def ofInteger? (negative : Bool) (n dropped : Nat) : Option Number :=
  let i : Int := if negative then - (n : Int) else n
  if dropped = 0 && !(negative && n = 0) then
    if h : -2 ^ (63 : Nat) ≤ i ∧ i < 2 ^ (64 : Nat) then some (.int i h.1 h.2) else scale? negative n 0
  else scale? negative n dropped

def exponent : Nat → Nat → List Char → Option Nat × Nat
  | n, used, [] => (some n, used)
  | n, used, c :: r =>
    let m := 10 * n + Decimal.digitValue c
    if m < 2 ^ (31 : Nat) then exponent m (used + 1) r else (none, used + 1)

end NumberText

namespace Reader

def orHuge : Option Number → Reader Number
  | some n => return n
  | none => failHere .hugeNumber

def exponentPart (negative : Bool) (n : Nat) (power : Int) : Reader Number := do
  let sign ← peek
  if sign = some '+' || sign = some '-' then advance
  match ← peek with
  | none => failHere .endInValue
  | some c =>
    if !Decimal.isDigit c then failNext .badNumber
    else
      let start ← get
      let run ← digits
      match NumberText.exponent 0 0 run with
      | (some e, _) => orHuge (NumberText.scale? negative n (if sign = some '-' then power - e else power + e))
      | (none, used) =>
        if n ≠ 0 && sign ≠ some '-' then do
          set (σ := Cursor) ⟨start.rest.drop used, (run.take used).foldl Cursor.byteStep start.place⟩
          failHere .hugeNumber
        else orHuge (NumberText.scale? negative 0 0)

def number (negative : Bool) : Reader Number := do
  match ← peek with
  | none => failHere .endInValue
  | some first =>
    if !Decimal.isDigit first then failNext .badNumber
    else
      let whole ← if first = '0' then do advance; pure ['0'] else digits
      let next ← peek
      if first = '0' && next.any Decimal.isDigit then failNext .badNumber
      let (n, taken) := NumberText.significand 0 0 whole
      let dropped := whole.length - taken
      if next = some '.' then
        advance
        let fraction ← digits
        if fraction.isEmpty then
          if (← peek).isNone then failHere .endInValue else failNext .badNumber
        let (m, kept) := NumberText.significand n 0 fraction
        let power : Int := (dropped : Int) - kept
        match ← peek with
        | some 'e' | some 'E' => do advance; exponentPart negative m power
        | _ => orHuge (NumberText.scale? negative m power)
      else if next = some 'e' || next = some 'E' then
        advance
        exponentPart negative n dropped
      else orHuge (NumberText.ofInteger? negative n dropped)

def hexValue? (a b c d : Char) : Option Nat := Decimal.natIn? 16 [a, b, c, d]

def hexFailure (m : Mark) (cs : List Char) : Failure :=
  if Text.byteLength (cs.take 4) < 4 then ⟨.endInString, cs.foldl Cursor.byteStep m⟩
  else ⟨.badEscape, Cursor.placeAfter 4 m cs⟩

def simpleEscape? : Char → Option Char
  | '"' => some '"'
  | '\\' => some '\\'
  | '/' => some '/'
  | 'b' => some '\x08'
  | 'f' => some '\x0c'
  | 'n' => some '\n'
  | 'r' => some '\r'
  | 't' => some '\t'
  | _ => none

/-- The text of a string behind its opening quote. `high` is the first half of a surrogate pair
whose second half must come next. -/
def stringFrom (done : List Char) (high : Option Nat) (m : Mark) :
    List Char → Except Failure (String × Cursor)
  | [] => .error ⟨.endInString, m⟩
  | '\\' :: 'u' :: a :: b :: c :: d :: r =>
    let digits := [a, b, c, d]
    match hexValue? a b c d with
    | none => .error (hexFailure ⟨m.line, m.column + 2⟩ (digits ++ r))
    | some n =>
      let here : Mark := ⟨m.line, m.column + 6⟩
      match high with
      | none =>
        if 0xDC00 ≤ n && n ≤ 0xDFFF then .error ⟨.loneSurrogate, here⟩
        else if 0xD800 ≤ n && n ≤ 0xDBFF then stringFrom done (some n) here r
        else stringFrom (Char.ofNat n :: done) none here r
      | some h =>
        if 0xDC00 ≤ n && n ≤ 0xDFFF then
          stringFrom (Char.ofNat (0x10000 + (h - 0xD800) * 0x400 + (n - 0xDC00)) :: done) none here r
        else .error ⟨.loneSurrogate, here⟩
  | '\\' :: 'u' :: r => .error (hexFailure ⟨m.line, m.column + 2⟩ r)
  | '\\' :: r =>
    let inside : Mark := ⟨m.line, m.column + 1⟩
    match r with
    | [] => .error ⟨.endInString, inside⟩
    | e :: r =>
      if high.isSome then .error ⟨.endOfEscape, Cursor.placeAfter 1 inside (e :: r)⟩
      else match simpleEscape? e with
        | none => .error ⟨.badEscape, Cursor.placeAfter 1 inside (e :: r)⟩
        | some c => stringFrom (c :: done) none ⟨m.line, m.column + 2⟩ r
  | c :: r =>
    if high.isSome then .error ⟨.endOfEscape, Cursor.placeAfter 1 m (c :: r)⟩
    else if c = '"' then .ok (String.ofList done.reverse, ⟨r, Cursor.byteStep m c⟩)
    else if c.toNat < 0x20 then .error ⟨.controlInString, Cursor.placeAfter 1 m (c :: r)⟩
    else stringFrom (c :: done) none (Cursor.byteStep m c) r

def string : Reader String := fun c => stringFrom [] none c.place c.rest

def nextItem (first : Bool) : Reader Bool := do
  match ← peekToken with
  | none => failHere .endInList
  | some ']' => return false
  | some c =>
    if first then return true
    else if c = ',' then
      advance
      match ← peekToken with
      | none => failHere .endInValue
      | some ']' => failNext .trailingComma
      | some _ => return true
    else failNext .missingListComma

def nextKey (first : Bool) : Reader Bool := do
  match ← peekToken with
  | none => failHere .endInObject
  | some '\x7d' => return false
  | some c =>
    if first then
      if c = '"' then do advance; return true else failNext .keyNotString
    else if c = ',' then
      advance
      match ← peekToken with
      | none => failHere .endInValue
      | some '"' => do advance; return true
      | some '\x7d' => failNext .trailingComma
      | some _ => failNext .keyNotString
    else failNext .missingObjectComma

def colon : Reader Unit := do
  match ← peekToken with
  | none => failHere .endInObject
  | some ':' => advance
  | some _ => failNext .missingColon

mutual

/-- A value with at most `depth` brackets open inside it. Every call reads a character or ends, so
twice the length of the text is fuel enough. -/
def value (fuel depth : Nat) : Reader Json := do
  match fuel with
  | 0 => failHere .endInValue
  | fuel + 1 =>
    match ← peekToken with
    | none => failHere .endInValue
    | some c =>
      if c = 'n' then do advance; word "ull".toList; return .null
      else if c = 't' then do advance; word "rue".toList; return .bool true
      else if c = 'f' then do advance; word "alse".toList; return .bool false
      else if c = '-' then do advance; return .number (← number true)
      else if Decimal.isDigit c then return .number (← number false)
      else if c = '"' then do advance; return .string (← string)
      else if c = '[' then
        if depth = 0 then failNext .tooDeep else do advance; items fuel (depth - 1) true []
      else if c = '\x7b' then
        if depth = 0 then failNext .tooDeep else do advance; fields fuel (depth - 1) true []
      else failNext .missingValue

def items (fuel depth : Nat) (first : Bool) (done : List Json) : Reader Json := do
  match fuel with
  | 0 => failHere .endInList
  | fuel + 1 =>
    if ← nextItem first then
      let v ← value fuel depth
      items fuel depth false (v :: done)
    else
      advance
      return .array done.reverse

def fields (fuel depth : Nat) (first : Bool) (done : List (String × Json)) : Reader Json := do
  match fuel with
  | 0 => failHere .endInObject
  | fuel + 1 =>
    if ← nextKey first then
      let key ← string
      colon
      let v ← value fuel depth
      fields fuel depth false (put key v done)
    else
      advance
      return .object done

end

def document (length : Nat) : Reader Json := do
  let v ← value (2 * length + 2) 127
  match ← peekToken with
  | none => return v
  | some _ => failNext .trailingText

end Reader

def read (text : List Char) : Except Failure Json :=
  (Reader.document text.length ⟨text, Mark.origin⟩).map (·.1)

end ConstraintDesk.Json
