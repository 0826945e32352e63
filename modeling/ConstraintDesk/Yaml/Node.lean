import ConstraintDesk.Yaml.Event
import ConstraintDesk.Yaml.Fault
import ConstraintDesk.Yaml.Resolve
/-! Walking over the nodes of a document. An alias leads back to the node with its anchor. Anchors are
numbered by the distinct names before them, and a number means the last node that has it. -/
namespace ConstraintDesk.Yaml

inductive NodeStart where
  | alias (anchor : Nat)
  | scalar (text : List Char) (style : ScalarStyle) (tag : Option (List UInt8))
  | sequence (tag : Option (List UInt8))
  | map (tag : Option (List UInt8))
  | sequenceEnd
  | mapEnd
  | nothing

structure Nodes where
  starts : Array (NodeStart × Place)
  failure : Misreading
  targets : List (Nat × Nat)
  names : List (List Char × Nat)
  complete : Except Misreading Unit

namespace Nodes

def define (names : List (List Char × Nat)) (name : List Char) : List (List Char × Nat) × Nat :=
  let n := names.length
  if names.any (·.1 = name) then (names.map fun x => if x.1 = name then (name, n) else x, n)
  else ((name, n) :: names, n)

def add (ns : Nodes) (e : Event) : Except Nodes Nodes :=
  let ns := match e.anchor with
    | none => ns
    | some name =>
      let (names, n) := define ns.names name
      { ns with names, targets := (n, ns.starts.size) :: ns.targets }
  let push (start : NodeStart) : Nodes := { ns with starts := ns.starts.push (start, e.place) }
  match e.kind with
  | .alias name =>
    match ns.names.find? (·.1 = name) with
    | some (_, n) => .ok (push (.alias n))
    | none =>
      let failure := Misreading.unknownAnchor e.place
      .error { ns with failure, complete := .error failure }
  | .scalar text style => .ok (push (.scalar text style e.tag))
  | .sequenceStart => .ok (push (.sequence e.tag))
  | .sequenceEnd => .ok (push .sequenceEnd)
  | .mappingStart => .ok (push (.map e.tag))
  | .mappingEnd => .ok (push .mapEnd)

def ofDocument (d : Document) : Nodes :=
  let failure := match d.fault with
    | some f => Misreading.malformed f
    | none => .endOfStream
  let complete := match d.fault with
    | some f => .error (.malformed f)
    | none => if d.more then .error .moreDocuments else .ok ()
  let ns : Nodes := ⟨#[], failure, [], [], complete⟩
  if d.events.isEmpty && d.fault.isNone then { ns with starts := #[(.nothing, .start)] }
  else match d.events.toList.foldlM add ns with
    | .ok ns => ns
    | .error ns => ns

def ofText (text : List Char) : Nodes := ofDocument (Document.ofText text)

end Nodes

structure Walk where
  position : Nat
  jumps : Nat

abbrev Reader := ReaderT Nodes (StateT Walk (Except Misreading))

namespace Reader

def peek : Reader (NodeStart × Place) := do
  match (← read).starts[(← get).position]? with
  | some start => return start
  | none => throw (← read).failure

def next : Reader (NodeStart × Place) := do
  let start ← peek
  modify fun w => { w with position := w.position + 1 }
  return start

/-- Reads the node of an anchor and comes back. A document may lead a walk through a hundred times as
many aliases as it has nodes. -/
def jump {α : Type} (anchor : Nat) (body : Reader α) : Reader α := do
  let ns ← read
  let w ← get
  if ns.starts.size * 100 < w.jumps + 1 then throw .tooManyAliases
  match ns.targets.find? (·.1 = anchor) with
  | none => throw .endOfStream
  | some (_, target) =>
    set (σ := Walk) ⟨target, w.jumps + 1⟩
    let a ← body
    modify fun w' => { w' with position := w.position }
    return a

def misfit {α : Type} (cause : Misfit) (place : Place) (path : Path) : Reader α :=
  throw (.misfit cause place path)

end Reader

namespace Tag

def core (name : String) : List UInt8 := Utf8.encode ("tag:yaml.org,2002:" ++ name).toList

def isLocal (tag : Option (List UInt8)) : Bool :=
  match tag with
  | some (b :: r) => b = 0x21 && Utf8.encode (Utf8.decode r) = r
  | _ => false

end Tag

def resolve (text : List Char) (style : ScalarStyle) (tag : Option (List UInt8)) :
    Except Misfit Resolved :=
  let wrong := fun expected => Except.error (Misfit.wrongValue (.string (String.ofList text)) expected)
  match tag with
  | none => .ok (if style = .plain then .plain text else .text)
  | some t =>
    if t = Tag.core "bool" then
      match Resolved.bool? text with
      | some b => .ok (.bool b)
      | none => wrong "a boolean"
    else if t = Tag.core "int" then
      match Resolved.int? text with
      | some i => .ok i
      | none => wrong "an integer"
    else if t = Tag.core "float" then
      match Resolved.float? text with
      | some x => .ok x
      | none => wrong "a float"
    else if t = Tag.core "null" then
      if Resolved.isNull text then .ok .null else wrong "null"
    else if t.head? = some 0x21 && style = .plain then .ok (.plain text)
    else .ok .text

def found (start : NodeStart) : Except Misfit Found :=
  match start with
  | .scalar text style tag =>
    (resolve text style tag).map fun
      | .null => .null
      | .bool b => .bool b
      | .int i => .int i
      | .hugeInt i => .hugeInt i
      | .float x => .float x
      | .notANumber => .notANumber
      | .text => .string (String.ofList text)
  | .map _ => .ok .map
  | .nothing => .ok .null
  | _ => .ok .sequence

namespace Reader

def text (fuel : Nat) (path : Path) (expected : String) : Reader String := do
  match fuel with
  | 0 => throw .tooManyAliases
  | fuel + 1 =>
    let (start, place) ← next
    match start with
    | .scalar text _ _ => return String.ofList text
    | .alias anchor => jump anchor (text fuel (.aliased path) expected)
    | other =>
      match found other with
      | .ok f => misfit (.wrongType f expected) place path
      | .error m => misfit m place path

end Reader
end ConstraintDesk.Yaml
