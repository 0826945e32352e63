import ConstraintDesk.Decimal.Binary64
import ConstraintDesk.Text.Basic
import ConstraintDesk.Line.Token
import ConstraintDesk.Model.Basic
/-! Reading a statement line.

    statement  := parameter | variable | constraint | goal
    parameter  := domain ':' id '=' literal ';'
    variable   := 'var' (domain | number '..' number) ':' id ';'
    constraint := 'constraint' id ':' expression ';'
    goal       := 'solve' ('satisfy' | ('minimize' | 'maximize') expression) ';'

An id is any run of tokens without gaps before the sign that ends it. An expression reaches up to the
last semicolon. White space and comments between tokens mean nothing. -/
namespace ConstraintDesk.Line

attribute [local instance (high)] instPowNat

inductive Fault where
  | noStatement
  | emptyLine
  | trailingText
  | missing (kind : TokenKind)
  | mismatch (expected found : TokenKind)
  | noIdentifier (found : TokenKind)
  | unexpected (kind : TokenKind)
  | spaceInIdentifier
  | noDirective
  | noDomain
  | noNumber
  | wrongValue (domain : Domain)
  | hugeInteger
  | noExpression
  deriving DecidableEq, Repr

def Fault.message : Fault → String
  | .noStatement => "expected a statement"
  | .emptyLine => "empty statement"
  | .trailingText => "unexpected input after ';'"
  | .missing kind => s!"expected {kind.description}"
  | .mismatch expected found => s!"expected {expected.description}, found {found.description}"
  | .noIdentifier found => s!"expected identifier, found {found.description}"
  | .unexpected kind => s!"unexpected {kind.description}"
  | .spaceInIdentifier => "unexpected space in identifier"
  | .noDirective => "expected 'satisfy', 'minimize' or 'maximize'"
  | .noDomain => "expected 'int', 'float' or 'bool'"
  | .noNumber => "expected a number"
  | .wrongValue domain => s!"expected {domain.name} value"
  | .hugeInteger => "integer out of range"
  | .noExpression => "expected an expression"

/-- A fault and the offset of the token in question; without one it is the end of the text. -/
structure Failure where
  fault : Fault
  offset : Option Nat
  deriving DecidableEq, Repr

abbrev Parser := StateT (List Token) (Except Failure)

def significant (ts : List Token) : List Token := ts.dropWhile (·.kind.isTrivia)

def isStray (t : Token) : Bool := t.kind = .newline || t.kind = .invalid

def textOf (ts : List Token) : List Char := ts.flatMap (·.text)

namespace Parser

def current : Parser (Option Token) := fun ts => .ok ((significant ts).head?, ts)

def kind : Parser (Option TokenKind) := return (← current).map (·.kind)

def skip : Parser Unit := fun ts => .ok ((), (significant ts).tail)

def failAt {α : Type} (offset : Option Nat) (fault : Fault) : Parser α :=
  fun _ => .error ⟨fault, offset⟩

def failHere {α : Type} (fault : Fault) : Parser α :=
  fun ts => .error ⟨fault, (significant ts).head?.map (·.start)⟩

def expect (kind : TokenKind) : Parser Unit := do
  match ← current with
  | some t => if t.kind = kind then skip else failHere (.mismatch kind t.kind)
  | none => failAt none (.missing kind)

def idFault? (earlier later : Token) : Option Fault :=
  if isStray later then some (.unexpected later.kind)
  else if earlier.finish ≠ later.start then some .spaceInIdentifier
  else none

def idFailure? : List Token → Option Failure
  | a :: b :: r => ((idFault? a b).map fun f => ⟨f, some b.start⟩).or (idFailure? (b :: r))
  | _ => none

def identifier (terminator : TokenKind) : Parser String := do
  let ts ← get
  let meaning := ts.filter (!·.kind.isTrivia)
  let body := meaning.takeWhile (·.kind ≠ terminator)
  if body.length = meaning.length then failAt none (.missing terminator)
  match body with
  | [] => failHere (.noIdentifier terminator)
  | first :: _ =>
    if isStray first then failHere (.unexpected first.kind)
    match idFailure? body with
    | some f => failAt f.offset f.fault
    | none =>
      set (ts.dropWhile (·.kind ≠ terminator))
      return String.ofList (textOf body)

def integer? (negative : Bool) (digits : List Char) : Option Int64 :=
  let n := Decimal.natOf digits
  let i : Int := if negative then - (n : Int) else n
  if -2 ^ (63 : Nat) ≤ i && i < 2 ^ (63 : Nat) then some (Int64.ofInt i) else none

def decimal (negative : Bool) (text : List Char) : Binary64 :=
  (Decimal.magnitude? negative text).getD { Binary64.zero with negative }

def number : Parser Literal := do
  let negative := (← current).any (·.kind = .minus)
  if negative then skip
  match ← current with
  | none => failHere .noNumber
  | some t =>
    match t.kind with
    | .integer =>
      match integer? negative t.text with
      | some i => do skip; return .int i
      | none => failHere .hugeInteger
    | .decimal => do skip; return .float (decimal negative t.text)
    | _ => failHere .noNumber

def widen? (domain : Domain) : Literal → Option Literal
  | .bool b => if domain = .bool then some (.bool b) else none
  | .int i =>
    match domain with
    | .int => some (.int i)
    | .float => some (.float (Binary64.ofInt i.toInt))
    | .bool => none
  | .float x => if domain = .float then some (.float x) else none

def literal : Parser Literal := do
  match ← kind with
  | some .trueWord => do skip; return .bool true
  | some .falseWord => do skip; return .bool false
  | _ => number

def value (domain : Domain) : Parser Literal := do
  let start ← get
  let l ← literal
  match widen? domain l with
  | some v => return v
  | none => do set start; failHere (.wrongValue domain)

def splitLast? (kind : TokenKind) (ts : List Token) : Option (List Token × List Token) :=
  let behind := ts.reverse.takeWhile (·.kind ≠ kind)
  match ts.reverse.dropWhile (·.kind ≠ kind) with
  | [] => none
  | _ :: before => some (before.reverse, behind.reverse)

def expression : Parser String := do
  match ← current with
  | none => failHere .noExpression
  | some t => if t.kind = .semicolon then failHere .noExpression
  match splitLast? .semicolon (significant (← get)) with
  | none => failAt none (.missing .semicolon)
  | some (body, rest) =>
    match body.find? isStray with
    | some t => failAt (some t.start) (.unexpected t.kind)
    | none =>
      set rest
      return String.ofList (Text.trim (textOf body))

def domainOf? : TokenKind → Option Domain
  | .int => some .int
  | .float => some .float
  | .bool => some .bool
  | _ => none

def nextDomain : Parser (Option Domain) := return (← current).bind (domainOf? ·.kind)

def domain : Parser Domain := do
  match ← nextDomain with
  | some d => do skip; return d
  | none => failHere .noDomain

def parameter : Parser Statement := do
  let d ← domain
  expect .colon
  let id ← identifier .equals
  expect .equals
  let v ← value d
  expect .semicolon
  return .parameters [⟨id, d, v⟩]

def rangeDomain : Literal → Literal → Domain
  | .int _, .int _ => .int
  | _, _ => .float

def declaration : Parser Statement := do
  expect .var
  let (d, range) ← match ← nextDomain with
    | some d => do skip; pure (d, none)
    | none => do
      let low ← number
      expect .dotDot
      let high ← number
      pure (rangeDomain low high, some (Bounds.mk low high))
  expect .colon
  let id ← identifier .semicolon
  expect .semicolon
  return .unknowns [⟨id, d, range⟩]

def constraint : Parser Statement := do
  expect .constraint
  let id ← identifier .colon
  expect .colon
  let e ← expression
  return .constraints [⟨id, e⟩]

def goal : Parser Statement := do
  expect .solve
  match ← kind with
  | some .satisfy => do
    skip
    expect .semicolon
    return .goal ⟨.satisfy, none⟩
  | some .minimize => do skip; return .goal ⟨.minimize, some (← expression)⟩
  | some .maximize => do skip; return .goal ⟨.maximize, some (← expression)⟩
  | _ => failHere .noDirective

def statement : Parser Statement := do
  let s ← match ← kind with
    | some .int | some .float | some .bool => parameter
    | some .var => declaration
    | some .constraint => constraint
    | some .solve => goal
    | some _ => failHere .noStatement
    | none => failHere .emptyLine
  if (← current).isSome then failHere .trailingText
  return s

end Parser

def Failure.mark (cs : List Char) (f : Failure) : Mark :=
  match f.offset with
  | some offset => .ofOffset cs offset
  | none => .behind (Text.trimEnd cs)

def parse (cs : List Char) : Except SyntaxError Statement :=
  match Parser.statement (tokens cs) with
  | .ok (s, _) => .ok s
  | .error f => .error ⟨f.fault.message, f.mark cs⟩

end ConstraintDesk.Line
