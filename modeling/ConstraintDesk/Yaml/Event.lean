import ConstraintDesk.Yaml.Scan.Tokens
/-! The nodes of a document, flat, in the order of the text. A document that breaks off in a fault
keeps the events before it, since a reader of values may find something else wrong with those. -/
namespace ConstraintDesk.Yaml

inductive EventKind where
  | alias (name : List Char)
  | scalar (text : List Char) (style : ScalarStyle)
  | sequenceStart
  | sequenceEnd
  | mappingStart
  | mappingEnd
  deriving DecidableEq, Repr

structure Event where
  kind : EventKind
  place : Place
  anchor : Option (List Char)
  tag : Option (List UInt8)
  deriving Repr

structure Document where
  events : Array Event
  fault : Option Fault
  more : Bool

namespace Event

structure State where
  ahead : List Token
  fault : Option Fault
  events : Array Event
  handles : List (List UInt8 × List UInt8)

abbrev Parse := ExceptT Fault (StateM State)

def peek : Parse Token := do
  let s ← get
  match s.ahead, s.fault with
  | t :: _, _ => return t
  | [], some f => throw f
  | [], none => throw (.alone .noNode .start)

def skip : Parse Unit := modify fun s => { s with ahead := s.ahead.tail }

def push (e : Event) : Parse Unit := modify fun s => { s with events := s.events.push e }

def emit (kind : EventKind) (place : Place) : Parse Unit := push ⟨kind, place, none, none⟩

def emitEmpty (place : Place) : Parse Unit := emit (.scalar [] .plain) place

structure Properties where
  start : Place
  anchor : Option (List Char)
  tag : Option (List UInt8)

def emitNode (kind : EventKind) (p : Properties) : Parse Unit := push ⟨kind, p.start, p.anchor, p.tag⟩

def defaultHandles : List (List UInt8 × List UInt8) :=
  [(Utf8.encode "!".toList, Utf8.encode "!".toList),
   (Utf8.encode "!!".toList, Utf8.encode "tag:yaml.org,2002:".toList)]

def fullTag (start place : Place) (handle suffix : List UInt8) : Parse (List UInt8) := do
  if handle.isEmpty then return suffix
  match (← get).handles.find? (·.1 = handle) with
  | some (_, uri) => return uri ++ suffix
  | none => throw (.inside .unknownHandle place .node start)

def properties : Parse Properties := do
  let first ← peek
  match first.kind with
  | .anchor name =>
    skip
    let t ← peek
    match t.kind with
    | .tag handle suffix =>
      skip
      let _ ← peek
      return ⟨first.start, some name, some (← fullTag first.start t.start handle suffix)⟩
    | _ => return ⟨first.start, some name, none⟩
  | .tag handle suffix =>
    skip
    let t ← peek
    match t.kind with
    | .anchor name =>
      skip
      let _ ← peek
      return ⟨first.start, some name, some (← fullTag first.start first.start handle suffix)⟩
    | _ => return ⟨first.start, none, some (← fullTag first.start first.start handle suffix)⟩
  | _ => return ⟨first.start, none, none⟩

def endsBlockNode : TokenKind → Bool
  | .key | .value | .blockEnd => true
  | _ => false

def endsFlowPair : TokenKind → Bool
  | .flowEntry | .flowMappingEnd => true
  | _ => false

mutual

def node (fuel : Nat) (block indentless : Bool) : Parse Unit := do
  match fuel with
  | 0 => throw (.alone .noNode .start)
  | fuel + 1 =>
    let t ← peek
    match t.kind with
    | .alias name =>
      skip
      emit (.alias name) t.start
    | _ =>
      let p ← properties
      let t ← peek
      match t.kind, block with
      | .blockEntry, _ =>
        if indentless then
          emitNode .sequenceStart p
          indentlessEntries fuel
        else content p t block
      | .scalar text style, _ =>
        skip
        emitNode (.scalar text style) p
      | .flowSequenceStart, _ =>
        emitNode .sequenceStart p
        skip
        flowEntries fuel t.start true
      | .flowMappingStart, _ =>
        emitNode .mappingStart p
        skip
        flowPairs fuel t.start true
      | .blockSequenceStart, true =>
        emitNode .sequenceStart p
        skip
        blockEntries fuel t.start
      | .blockMappingStart, true =>
        emitNode .mappingStart p
        skip
        blockPairs fuel t.start
      | _, _ => content p t block

def content (p : Properties) (t : Token) (block : Bool) : Parse Unit :=
  if p.anchor.isSome || p.tag.isSome then emitNode (.scalar [] .plain) p
  else throw (.inside .noNode t.start (if block then .blockNode else .flowNode) p.start)

def blockEntries (fuel : Nat) (began : Place) : Parse Unit := do
  match fuel with
  | 0 => throw (.alone .noNode .start)
  | fuel + 1 =>
    let t ← peek
    match t.kind with
    | .blockEntry =>
      skip
      match (← peek).kind with
      | .blockEntry | .blockEnd => emitEmpty t.finish
      | _ => node fuel true false
      blockEntries fuel began
    | .blockEnd =>
      skip
      emit .sequenceEnd t.start
    | _ => throw (.inside .noBlockEntry t.start .blockCollection began)

def indentlessEntries (fuel : Nat) : Parse Unit := do
  match fuel with
  | 0 => throw (.alone .noNode .start)
  | fuel + 1 =>
    let t ← peek
    match t.kind with
    | .blockEntry =>
      skip
      let next := (← peek).kind
      if next = .blockEntry || endsBlockNode next then emitEmpty t.finish else node fuel true false
      indentlessEntries fuel
    | _ => emit .sequenceEnd t.start

def blockPairs (fuel : Nat) (began : Place) : Parse Unit := do
  match fuel with
  | 0 => throw (.alone .noNode .start)
  | fuel + 1 =>
    let t ← peek
    match t.kind with
    | .key =>
      skip
      if endsBlockNode (← peek).kind then emitEmpty t.finish else node fuel true true
      let v ← peek
      match v.kind with
      | .value =>
        skip
        if endsBlockNode (← peek).kind then emitEmpty v.finish else node fuel true true
      | _ => emitEmpty v.start
      blockPairs fuel began
    | .blockEnd =>
      skip
      emit .mappingEnd t.start
    | _ => throw (.inside .noKey t.start .blockMapping began)

def flowEntries (fuel : Nat) (began : Place) (first : Bool) : Parse Unit := do
  match fuel with
  | 0 => throw (.alone .noNode .start)
  | fuel + 1 =>
    let t ← peek
    if !first && t.kind ≠ .flowSequenceEnd then
      if t.kind = .flowEntry then skip
      else throw (.inside .noSequenceComma t.start .flowSequence began)
    let t ← peek
    match t.kind with
    | .flowSequenceEnd =>
      skip
      emit .sequenceEnd t.start
    | .key =>
      emit .mappingStart t.start
      skip
      flowPair fuel
      flowEntries fuel began false
    | _ =>
      node fuel false false
      flowEntries fuel began false

def flowPair (fuel : Nat) : Parse Unit := do
  match fuel with
  | 0 => throw (.alone .noNode .start)
  | fuel + 1 =>
    let t ← peek
    match t.kind with
    | .value | .flowEntry | .flowSequenceEnd =>
      skip
      emitEmpty t.finish
    | _ => node fuel false false
    let v ← peek
    match v.kind with
    | .value =>
      skip
      let w ← peek
      match w.kind with
      | .flowEntry | .flowSequenceEnd => emitEmpty w.start
      | _ => node fuel false false
    | _ => emitEmpty v.start
    emit .mappingEnd (← peek).start

def flowPairs (fuel : Nat) (began : Place) (first : Bool) : Parse Unit := do
  match fuel with
  | 0 => throw (.alone .noNode .start)
  | fuel + 1 =>
    let t ← peek
    if !first && t.kind ≠ .flowMappingEnd then
      if t.kind = .flowEntry then skip
      else throw (.inside .noMappingComma t.start .flowMapping began)
    let t ← peek
    match t.kind with
    | .flowMappingEnd =>
      skip
      emit .mappingEnd t.start
    | .key =>
      skip
      let k ← peek
      if k.kind = .value || endsFlowPair k.kind then emitEmpty k.start else node fuel false false
      let v ← peek
      match v.kind with
      | .value =>
        skip
        let w ← peek
        if endsFlowPair w.kind then emitEmpty w.start else node fuel false false
      | _ => emitEmpty v.start
      flowPairs fuel began false
    | _ =>
      node fuel false false
      emitEmpty (← peek).start
      flowPairs fuel began false

end

def directives (version : Bool) (handles : List (List UInt8 × List UInt8)) :
    List Token → Except Fault (List (List UInt8 × List UInt8) × List Token)
  | [] => .ok (handles, [])
  | t :: ts =>
    match t.kind with
    | .version major minor =>
      if version then .error (.alone .twoVersions t.start)
      else if major = 1 && (minor = 1 || minor = 2) then directives true handles ts
      else .error (.alone .wrongVersion t.start)
    | .tagDirective handle uri =>
      if handles.any (·.1 = handle) then .error (.alone .twoTagDirectives t.start)
      else directives version (handles ++ [(handle, uri)]) ts
    | _ => .ok (handles, t :: ts)

def explicitDocument (fuel : Nat) : Parse Unit := do
  let s ← get
  let (handles, ahead) ← directives false [] s.ahead
  set { s with ahead, handles := handles ++ defaultHandles }
  let t ← peek
  if t.kind ≠ .documentStart then throw (.alone .noDocumentStart t.start)
  skip
  let t ← peek
  match t.kind with
  | .version .. | .tagDirective .. | .documentStart | .documentEnd | .streamEnd => emitEmpty t.start
  | _ => node fuel true false

def firstDocument (fuel : Nat) : Parse Bool := do
  skip
  let t ← peek
  match t.kind with
  | .streamEnd => return false
  | .version .. | .tagDirective .. | .documentStart => explicitDocument fuel
  | _ =>
    modify fun s => { s with handles := defaultHandles }
    node fuel true false
  let _ ← peek
  let rest := (← get).ahead.dropWhile (·.kind = .documentEnd)
  return rest.head?.all (·.kind ≠ .streamEnd)

end Event

namespace Document

def ofText (text : List Char) : Document :=
  let (ts, fault) := tokens text
  let (result, s) := (Event.firstDocument (3 * ts.length + 10)).run ⟨ts, fault, #[], []⟩
  match result with
  | .ok more => ⟨s.events, none, more⟩
  | .error f => ⟨s.events, some f, true⟩

end Document
end ConstraintDesk.Yaml
