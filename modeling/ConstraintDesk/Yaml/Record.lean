import ConstraintDesk.Yaml.Node
/-! Reading records straight from the nodes of a document. Texts are scalars as they stand, numbers are
plain scalars, and what belongs to an unknown key is passed over. -/
namespace ConstraintDesk.Yaml.Reader

def reach : Nat := 2

def isVacant : NodeStart → Bool
  | .nothing => true
  | .scalar text style _ => text.isEmpty && style = .plain
  | _ => false

def wrongType {α : Type} (start : NodeStart) (expected : String) (place : Place) (path : Path) :
    Reader α :=
  match found start with
  | .ok f => misfit (.wrongType f expected) place path
  | .error m => misfit m place path

def naturalOf (text : List Char) (start : NodeStart) (type : String) (place : Place) (path : Path) :
    Reader Nat :=
  match Resolved.int? text with
  | some (.int i) =>
    if 0 ≤ i then return i.toNat else misfit (.wrongValue (.int i) type) place path
  | _ => wrongType start type place path

def mayBeInt (style : ScalarStyle) (tag : Option (List UInt8)) : Bool :=
  style = .plain || (style = .literal && tag = some (Tag.core "int"))

def natural (fuel : Nat) (type : String) (path : Path) : Reader Nat := do
  match fuel with
  | 0 => throw .tooManyAliases
  | fuel + 1 =>
    let (start, place) ← next
    match start with
    | .alias anchor => jump anchor (natural fuel type (.aliased path))
    | .scalar text style tag =>
      if mayBeInt style tag then naturalOf text start type place path
      else wrongType start type place path
    | _ => wrongType start type place path

def isAbsent (start : NodeStart) (place : Place) (path : Path) : Reader Bool :=
  match start with
  | .scalar text .plain none => return text.isEmpty || Resolved.isNull text
  | .scalar text .plain (some tag) =>
    if tag != Tag.core "null" then return false
    else if Resolved.isNull text then return true
    else misfit (.wrongValue (.string (String.ofList text)) "null") place path
  | .nothing => return true
  | _ => return false

def naturalOption (fuel : Nat) (type : String) (place : Place) (outer path : Path) :
    Reader (Option Nat) := do
  match fuel with
  | 0 => throw .tooManyAliases
  | fuel + 1 =>
    let (start, _) ← peek
    match start with
    | .alias anchor =>
      let _ ← next
      jump anchor (naturalOption fuel type place outer (.aliased path))
    | _ =>
      if ← isAbsent start place outer then
        let _ ← next
        return none
      else return some (← natural reach type path)

def textItems (fuel : Nat) (path : Path) (done : List String) : Reader (List String) := do
  match fuel with
  | 0 => throw .tooManyAliases
  | fuel + 1 =>
    match (← peek).1 with
    | .sequenceEnd =>
      let _ ← next
      return done.reverse
    | _ => textItems fuel path ((← text reach (.item path done.length) "a string") :: done)

def texts (fuel : Nat) (path : Path) : Reader (List String) := do
  match fuel with
  | 0 => throw .tooManyAliases
  | fuel + 1 =>
    let (start, place) ← next
    match start with
    | .alias anchor => jump anchor (texts fuel (.aliased path))
    | .sequence _ => textItems fuel path []
    | _ => if isVacant start then return [] else wrongType start "a sequence" place path

def skip (fuel opened : Nat) : Reader Unit := do
  match fuel with
  | 0 => throw .tooManyAliases
  | fuel + 1 =>
    let opened := match (← next).1 with
      | .sequence _ | .map _ => opened + 1
      | .sequenceEnd | .mapEnd => opened - 1
      | _ => opened
    if opened = 0 then return () else skip fuel opened

def entries {α : Type} (fuel : Nat) (path : Path) (add : α → String → Path → Reader α) (a : α) :
    Reader α := do
  match fuel with
  | 0 => throw .tooManyAliases
  | fuel + 1 =>
    let (start, _) ← peek
    match start with
    | .mapEnd =>
      let _ ← next
      return a
    | _ =>
      let name ← text reach path "field identifier"
      let inner := match start with
        | .scalar t _ _ => Path.key path t
        | _ => .unnamed path
      entries fuel path add (← add a name inner)

def record {α : Type} (fuel : Nat) (expected : String) (path : Path) (empty : α)
    (add : Place → Path → α → String → Path → Reader α) : Reader α := do
  match fuel with
  | 0 => throw .tooManyAliases
  | fuel + 1 =>
    let (start, place) ← next
    match start with
    | .alias anchor => jump anchor (record fuel expected (.aliased path) empty add)
    | .map _ => entries fuel path (add place path) empty
    | _ => if isVacant start then return empty else wrongType start expected place path

end ConstraintDesk.Yaml.Reader
