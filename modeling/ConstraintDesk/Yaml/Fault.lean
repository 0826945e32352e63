import ConstraintDesk.Decode.Record
import ConstraintDesk.Yaml.Token
/-! What can be wrong with a YAML text: a problem at a place and, for most, the construct during which
it was met, with the place where that began. A text can also lack a value of the expected kind, with the
place of the node in question and the path of keys and indices that leads to it. -/
namespace ConstraintDesk.Yaml

inductive Problem where
  | controlCharacter
  | noKeyColon
  | noToken
  | blockEntryHere
  | keyHere
  | valueHere
  | unknownDirective
  | noDirectiveName
  | badDirectiveName
  | noDirectiveEnd
  | noVersionDot
  | longVersion
  | noVersion
  | noTagSpace
  | noTagEnd
  | noAnchorName
  | noVerbatimEnd
  | noHandle
  | noUri
  | noOctet
  | badLeadingOctet
  | badTrailingOctet
  | zeroIndentation
  | tabInBlock
  | documentMarkInQuotes
  | endInQuotes
  | unknownEscape
  | noHexNumber
  | badCodePoint
  | tabInPlain
  | colonInPlain
  | noDocumentStart
  | twoVersions
  | wrongVersion
  | twoTagDirectives
  | unknownHandle
  | noNode
  | noBlockEntry
  | noKey
  | noSequenceComma
  | noMappingComma
  deriving DecidableEq, Repr

def Problem.message : Problem → String
  | .controlCharacter => "control characters are not allowed"
  | .noKeyColon => "could not find expected ':'"
  | .noToken => "found character that cannot start any token"
  | .blockEntryHere => "block sequence entries are not allowed in this context"
  | .keyHere => "mapping keys are not allowed in this context"
  | .valueHere => "mapping values are not allowed in this context"
  | .unknownDirective => "found unknown directive name"
  | .noDirectiveName => "could not find expected directive name"
  | .badDirectiveName => "found unexpected non-alphabetical character"
  | .noDirectiveEnd => "did not find expected comment or line break"
  | .noVersionDot => "did not find expected digit or '.' character"
  | .longVersion => "found extremely long version number"
  | .noVersion => "did not find expected version number"
  | .noTagSpace => "did not find expected whitespace"
  | .noTagEnd => "did not find expected whitespace or line break"
  | .noAnchorName => "did not find expected alphabetic or numeric character"
  | .noVerbatimEnd => "did not find the expected '>'"
  | .noHandle => "did not find expected '!'"
  | .noUri => "did not find expected tag URI"
  | .noOctet => "did not find URI escaped octet"
  | .badLeadingOctet => "found an incorrect leading UTF-8 octet"
  | .badTrailingOctet => "found an incorrect trailing UTF-8 octet"
  | .zeroIndentation => "found an indentation indicator equal to 0"
  | .tabInBlock => "found a tab character where an indentation space is expected"
  | .documentMarkInQuotes => "found unexpected document indicator"
  | .endInQuotes => "found unexpected end of stream"
  | .unknownEscape => "found unknown escape character"
  | .noHexNumber => "did not find expected hexadecimal number"
  | .badCodePoint => "found invalid Unicode character escape code"
  | .tabInPlain => "found a tab character that violates indentation"
  | .colonInPlain => "found unexpected ':'"
  | .noDocumentStart => "did not find expected <document start>"
  | .twoVersions => "found duplicate %YAML directive"
  | .wrongVersion => "found incompatible YAML document"
  | .twoTagDirectives => "found duplicate %TAG directive"
  | .unknownHandle => "found undefined tag handle"
  | .noNode => "did not find expected node content"
  | .noBlockEntry => "did not find expected '-' indicator"
  | .noKey => "did not find expected key"
  | .noSequenceComma => "did not find expected ',' or ']'"
  | .noMappingComma => "did not find expected ',' or '\x7d'"

inductive Construct where
  | simpleKey
  | nextToken
  | directive
  | versionDirective
  | tagDirective
  | tagDirectiveHandle
  | tagDirectiveUri
  | tagDirectiveName
  | anchor
  | alias
  | tag
  | tagUri
  | blockScalar
  | quotedScalar
  | escape
  | plainScalar
  | node
  | blockNode
  | flowNode
  | blockCollection
  | blockMapping
  | flowSequence
  | flowMapping
  deriving DecidableEq, Repr

def Construct.message : Construct → String
  | .simpleKey => "while scanning a simple key"
  | .nextToken => "while scanning for the next token"
  | .directive => "while scanning a directive"
  | .versionDirective => "while scanning a %YAML directive"
  | .tagDirective => "while scanning a %TAG directive"
  | .tagDirectiveHandle => "while scanning a tag directive"
  | .tagDirectiveUri => "while parsing a %TAG directive"
  | .tagDirectiveName => "while parsing a tag directive"
  | .anchor => "while scanning an anchor"
  | .alias => "while scanning an alias"
  | .tag => "while scanning a tag"
  | .tagUri => "while parsing a tag"
  | .blockScalar => "while scanning a block scalar"
  | .quotedScalar => "while scanning a quoted scalar"
  | .escape => "while parsing a quoted scalar"
  | .plainScalar => "while scanning a plain scalar"
  | .node => "while parsing a node"
  | .blockNode => "while parsing a block node"
  | .flowNode => "while parsing a flow node"
  | .blockCollection => "while parsing a block collection"
  | .blockMapping => "while parsing a block mapping"
  | .flowSequence => "while parsing a flow sequence"
  | .flowMapping => "while parsing a flow mapping"

structure Fault where
  problem : Problem
  place : Place
  context : Option (Construct × Place)
  offset : Nat
  deriving DecidableEq, Repr

namespace Fault

def inside (problem : Problem) (place : Place) (construct : Construct) (began : Place) : Fault :=
  ⟨problem, place, some (construct, began), 0⟩

def alone (problem : Problem) (place : Place) : Fault := ⟨problem, place, none, 0⟩

end Fault

def placeText (p : Mark) : String :=
  if p.line = 0 && p.column = 0 then ""
  else s!" at line {p.line + 1} column {p.column + 1}"

/-- The problem and its place, then the construct, with its place if that is another one. -/
def Fault.message (f : Fault) : String :=
  let place :=
    if f.place.mark = Mark.origin && f.offset ≠ 0 then s!" at position {f.offset}"
    else placeText f.place.mark
  let context := match f.context with
    | none => ""
    | some (construct, began) =>
      ", " ++ construct.message ++ (if began.mark = f.place.mark then "" else placeText began.mark)
  f.problem.message ++ place ++ context

inductive Path where
  | root
  | item (parent : Path) (index : Nat)
  | key (parent : Path) (name : List Char)
  | unnamed (parent : Path)
  | aliased (parent : Path)
  deriving DecidableEq

namespace Path

def joint : Path → String → String
  | .root, _ => ""
  | _, text => text ++ "."

def text : Path → String
  | .root => "."
  | .item parent index => s!"{parent.text}[{index}]"
  | .key parent name => parent.joint parent.text ++ String.ofList name
  | .unnamed parent => parent.joint parent.text ++ "?"
  | .aliased parent => parent.text

end Path

inductive Misreading where
  | malformed (fault : Fault)
  | misfit (cause : Misfit) (place : Place) (path : Path)
  | unknownAnchor (place : Place)
  | tooDeep (place : Place)
  | tooManyAliases
  | endOfStream
  | moreDocuments

namespace Misreading

def wording : Wording where
  null := "unit value"
  float x := String.ofList (Spelling.write ⟨-400, 400, false, true⟩ x) ++
    (if x.isFinite then "" else ".0")

def message : Misreading → String
  | .malformed fault => fault.message
  | .misfit cause place path =>
    (if path.text = "." then "" else path.text ++ ": ") ++ cause.message wording
      ++ placeText place.mark
  | .unknownAnchor place => "unknown anchor" ++ placeText place.mark
  | .tooDeep place => "recursion limit exceeded" ++ placeText place.mark
  | .tooManyAliases => "repetition limit exceeded"
  | .endOfStream => "EOF while parsing a value"
  | .moreDocuments => "deserializing from YAML containing more than one document is not supported"

def mark : Misreading → Mark
  | .malformed fault => fault.place.mark
  | .misfit _ place _ | .unknownAnchor place | .tooDeep place => place.mark
  | .tooManyAliases | .endOfStream | .moreDocuments => Mark.origin

end Misreading
end ConstraintDesk.Yaml
