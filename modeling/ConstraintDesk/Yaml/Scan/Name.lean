import ConstraintDesk.Decimal.Binary64
import ConstraintDesk.Text.Basic
import ConstraintDesk.Yaml.Fault
import ConstraintDesk.Yaml.Token
/-! Anchors, tags and directives. A tag is a handle and a suffix; octets of a suffix may be written
with percent signs, so tags are kept as bytes. -/
namespace ConstraintDesk.Yaml.Name

def take (p : Char → Bool) (c : Cursor) : List Char × Cursor := (c.rest.takeWhile p, c.skipWhile p)

def endsAnchor (c : Cursor) : Bool :=
  endsWord c.rest || c.peek.any (fun x => "?:,]\x7d%@`".toList.contains x)

def anchor (isAlias : Bool) (c : Cursor) : Except Fault (Token × Cursor) :=
  let (name, ahead) := take isNameChar c.skip
  if name.isEmpty || !endsAnchor ahead then
    .error (.inside .noAnchorName ahead.place (if isAlias then .alias else .anchor) c.place)
  else .ok (⟨if isAlias then .alias name else .anchor name, c.place, ahead.place⟩, ahead)

def handle (directive : Bool) (start : Place) (c : Cursor) : Except Fault (List Char × Cursor) :=
  if c.peek ≠ some '!' then
    .error (.inside .noHandle c.place (if directive then .tagDirectiveHandle else .tag) start)
  else
    let (name, ahead) := take isNameChar c.skip
    if ahead.peek = some '!' then .ok ('!' :: name ++ ['!'], ahead.skip)
    else if directive && !name.isEmpty then
      .error (.inside .noHandle ahead.place .tagDirectiveName start)
    else .ok ('!' :: name, ahead)

def hexOctet? : List Char → Option UInt8
  | '%' :: a :: b :: _ => (Decimal.natIn? 16 [a, b]).map UInt8.ofNat
  | _ => none

def octetCount? (b : UInt8) : Option Nat :=
  if b < 0x80 then some 1
  else if 0xC0 ≤ b && b < 0xE0 then some 2
  else if 0xE0 ≤ b && b < 0xF0 then some 3
  else if 0xF0 ≤ b && b < 0xF8 then some 4
  else none

def octets (fault : Problem → Place → Fault) (owed : Nat) (c : Cursor) :
    Except Fault (List UInt8 × Cursor) :=
  match owed with
  | 0 => .ok ([], c)
  | owed + 1 =>
    match hexOctet? c.rest with
    | none => .error (fault .noOctet c.place)
    | some b =>
      if 0x80 ≤ b && b < 0xC0 then do
        let (later, c) ← octets fault owed (Cursor.skipMany 3 c)
        return (b :: later, c)
      else .error (fault .badTrailingOctet c.place)

def escaped (fault : Problem → Place → Fault) (c : Cursor) : Except Fault (List UInt8 × Cursor) :=
  match hexOctet? c.rest with
  | none => .error (fault .noOctet c.place)
  | some b =>
    match octetCount? b with
    | none => .error (fault .badLeadingOctet c.place)
    | some n => do
      let (later, c) ← octets fault (n - 1) (Cursor.skipMany 3 c)
      return (b :: later, c)

def isUriChar (verbatim : Bool) (c : Char) : Bool :=
  isNameChar c || ";/?:@&=+$.%!~*'()".toList.contains c || (verbatim && ",[]".toList.contains c)

def uriFrom (fault : Problem → Place → Fault) (verbatim : Bool) :
    Nat → List UInt8 → Cursor → Except Fault (List UInt8 × Cursor)
  | 0, done, c => .ok (done, c)
  | fuel + 1, done, c =>
    match c.peek with
    | none => .ok (done, c)
    | some x =>
      if !isUriChar verbatim x then .ok (done, c)
      else if x = '%' then do
        let (bytes, c) ← escaped fault c
        uriFrom fault verbatim fuel (done ++ bytes) c
      else uriFrom fault verbatim fuel (done ++ Utf8.encode [x]) c.skip

def uri (directive verbatim : Bool) (head : List Char) (start : Place) (c : Cursor) :
    Except Fault (List UInt8 × Cursor) := do
  let fault := fun problem place =>
    Fault.inside problem place (if directive then .tagDirectiveUri else .tagUri) start
  let (bytes, ahead) ← uriFrom fault verbatim c.rest.length (Utf8.encode head.tail) c
  if head.isEmpty && bytes.isEmpty then .error (fault .noUri ahead.place) else .ok (bytes, ahead)

def bang : List UInt8 := Utf8.encode ['!']

def tagParts (start : Place) (c : Cursor) : Except Fault ((List UInt8 × List UInt8) × Cursor) := do
  let (h, ahead) ← handle false start c
  if 1 < h.length && h.getLast? = some '!' then
    let (suffix, ahead) ← uri false false [] start ahead
    return ((Utf8.encode h, suffix), ahead)
  else
    let (suffix, ahead) ← uri false false h start ahead
    return (if suffix.isEmpty then ([], bang) else (bang, suffix), ahead)

def verbatim (start : Place) (c : Cursor) : Except Fault ((List UInt8 × List UInt8) × Cursor) := do
  let (suffix, ahead) ← uri false true [] start (Cursor.skipMany 2 c)
  if ahead.peek = some '>' then .ok (([], suffix), ahead.skip)
  else .error (.inside .noVerbatimEnd ahead.place .tag start)

def tag (inFlow : Bool) (c : Cursor) : Except Fault (Token × Cursor) := do
  let isVerbatim := c.rest.tail.head? = some '<'
  let ((h, suffix), ahead) ← if isVerbatim then verbatim c.place c else tagParts c.place c
  if endsWord ahead.rest || (inFlow && ahead.peek = some ',') then
    .ok (⟨.tag h suffix, c.place, ahead.place⟩, ahead)
  else .error (.inside .noTagEnd ahead.place .tag c.place)

def versionNumber (start : Place) (c : Cursor) : Except Fault (Nat × Cursor) :=
  let (digits, ahead) := take Decimal.isDigit c
  if 9 < digits.length then
    .error (.inside .longVersion (Cursor.skipMany 9 c).place .versionDirective start)
  else if digits.isEmpty then .error (.inside .noVersion c.place .versionDirective start)
  else .ok (Decimal.natOf digits, ahead)

def version (start : Place) (c : Cursor) : Except Fault (TokenKind × Cursor) := do
  let (major, c) ← versionNumber start (c.skipWhile isSpace)
  if c.peek ≠ some '.' then .error (.inside .noVersionDot c.place .versionDirective start)
  let (minor, c) ← versionNumber start c.skip
  return (.version major minor, c)

def tagDirective (start : Place) (c : Cursor) : Except Fault (TokenKind × Cursor) := do
  let (h, c) ← handle true start (c.skipWhile isSpace)
  if !c.atSpace then .error (.inside .noTagSpace c.place .tagDirective start)
  let (text, c) ← uri true true [] start (c.skipWhile isSpace)
  if !endsWord c.rest then .error (.inside .noTagEnd c.place .tagDirective start)
  return (.tagDirective (Utf8.encode h) text, c)

def directive (c : Cursor) : Except Fault (Token × Cursor) := do
  let start := c.place
  let (name, c) := take isNameChar c.skip
  if name.isEmpty then .error (.inside .noDirectiveName c.place .directive start)
  if !endsWord c.rest then .error (.inside .badDirectiveName c.place .directive start)
  let (kind, c) ←
    if name = "YAML".toList then version start c
    else if name = "TAG".toList then tagDirective start c
    else .error (.inside .unknownDirective c.place .directive start)
  let finish := c.place
  let c := c.skipWhile isSpace
  let c := if c.peek = some '#' then c.skipWhile (!isBreak ·) else c
  if c.atEnd || c.atBreak then .ok (⟨kind, start, finish⟩, c.skipBreak)
  else .error (.inside .noDirectiveEnd c.place .directive start)

end ConstraintDesk.Yaml.Name
