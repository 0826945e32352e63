import ConstraintDesk.Text.Basic
/-! The tokens of a statement line. Every character belongs to a token, white space and comments
included; each token is the longest that can start where it starts. Offsets are those of texts below
4 GiB, so 32 bits hold them. -/
namespace ConstraintDesk.Line

inductive TokenKind where
  | whitespace
  | comment
  | newline
  | var
  | constraint
  | solve
  | satisfy
  | minimize
  | maximize
  | int
  | float
  | bool
  | trueWord
  | falseWord
  | identifier
  | integer
  | decimal
  | string
  | dotDot
  | colon
  | semicolon
  | equals
  | minus
  | symbol
  | invalid
  deriving DecidableEq, Repr

namespace TokenKind

def isTrivia : TokenKind → Bool
  | .whitespace | .comment => true
  | _ => false

def keywords : List (String × TokenKind) :=
  [("var", .var), ("constraint", .constraint), ("solve", .solve), ("satisfy", .satisfy),
   ("minimize", .minimize), ("maximize", .maximize), ("int", .int), ("float", .float),
   ("bool", .bool), ("true", .trueWord), ("false", .falseWord)]

def isKeyword (k : TokenKind) : Bool := keywords.any (·.2 = k)

def description : TokenKind → String
  | .whitespace => "whitespace"
  | .comment => "comment"
  | .newline => "line break"
  | .var => "'var'"
  | .constraint => "'constraint'"
  | .solve => "'solve'"
  | .satisfy => "'satisfy'"
  | .minimize => "'minimize'"
  | .maximize => "'maximize'"
  | .int => "'int'"
  | .float => "'float'"
  | .bool => "'bool'"
  | .trueWord => "'true'"
  | .falseWord => "'false'"
  | .identifier => "identifier"
  | .integer => "integer"
  | .decimal => "decimal"
  | .string => "string"
  | .dotDot => "'..'"
  | .colon => "':'"
  | .semicolon => "';'"
  | .equals => "'='"
  | .minus => "'-'"
  | .symbol => "symbol"
  | .invalid => "invalid character"

end TokenKind

structure Token where
  kind : TokenKind
  text : List Char
  start : Nat
  deriving DecidableEq, Repr

def Token.finish (t : Token) : Nat := t.start + Text.byteLength t.text

def isSpace (c : Char) : Bool := c = ' ' || c = '\t' || c = '\r'

def isDigit (c : Char) : Bool := '0' ≤ c && c ≤ '9'

def isWordStart (c : Char) : Bool := ('a' ≤ c && c ≤ 'z') || ('A' ≤ c && c ≤ 'Z') || c = '_'

def isWordChar (c : Char) : Bool := isWordStart c || isDigit c

def wordKind (word : List Char) : TokenKind :=
  ((TokenKind.keywords.find? fun k => k.1.toList = word).map (·.2)).getD .identifier

def exponentLength : List Char → Nat
  | e :: r =>
    if e = 'e' || e = 'E' then
      let sign := if r.head? = some '+' || r.head? = some '-' then 1 else 0
      let digits := ((r.drop sign).takeWhile isDigit).length
      if digits = 0 then 0 else 1 + sign + digits
    else 0
  | [] => 0

def fractionLength : List Char → Nat
  | '.' :: r =>
    let digits := (r.takeWhile isDigit).length
    if digits = 0 then 0 else 1 + digits
  | _ => 0

def number (cs : List Char) : TokenKind × Nat :=
  let whole := (cs.takeWhile isDigit).length
  let fraction := fractionLength (cs.drop whole)
  let exponent := exponentLength (cs.drop (whole + fraction))
  (if fraction + exponent = 0 then .integer else .decimal, whole + fraction + exponent)

def stringBody : List Char → Nat × Bool
  | [] => (0, false)
  | '\\' :: c :: r => if c = '\n' then (0, false) else longer 2 (stringBody r)
  | c :: r =>
    if c = '"' then (0, true) else if c = '\\' then (0, false) else longer 1 (stringBody r)
where
  longer (n : Nat) (body : Nat × Bool) : Nat × Bool := (body.1 + n, body.2)

/-- A string, or what an open quote leaves of one: the quote and the characters that could have been
in the string are one invalid token, and a quote alone is a symbol. -/
def quote (r : List Char) : TokenKind × Nat :=
  match stringBody r with
  | (n, true) => (.string, n + 2)
  | (0, false) => (.symbol, 1)
  | (n, false) => (.invalid, n + 1)

def first (c : Char) (r : List Char) : TokenKind × Nat :=
  if isSpace c then (.whitespace, (r.takeWhile isSpace).length + 1)
  else if c = '%' then (.comment, (r.takeWhile (· ≠ '\n')).length + 1)
  else if c = '\n' then (.newline, 1)
  else if isWordStart c then
    let word := c :: r.takeWhile isWordChar
    (wordKind word, word.length)
  else if isDigit c then number (c :: r)
  else if c = '"' then quote r
  else if c = ':' then (.colon, 1)
  else if c = ';' then (.semicolon, 1)
  else if c = '=' then (.equals, 1)
  else if c = '-' then (.minus, 1)
  else if c = '.' && r.head? = some '.' then (.dotDot, 2)
  else (.symbol, 1)

def tokensFrom (offset : Nat) : List Char → List Token
  | [] => []
  | c :: r =>
    let (kind, n) := first c r
    let text := c :: r.take (n - 1)
    ⟨kind, text, offset⟩ :: tokensFrom (offset + Text.byteLength text) (r.drop (n - 1))
termination_by cs => cs.length
decreasing_by simp only [List.length_drop, List.length_cons]; omega

def tokens (cs : List Char) : List Token := tokensFrom 0 cs

end ConstraintDesk.Line
