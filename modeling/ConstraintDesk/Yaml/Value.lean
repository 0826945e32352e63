import ConstraintDesk.Json.Value
import ConstraintDesk.Yaml.Node
/-! Reading a YAML document as a structured value. Keys are taken as their text; a repeated key takes
its last value at its first place; what is not finite is null. Up to 128 collections may be open at
once. -/
namespace ConstraintDesk.Yaml

namespace Reader

def ofResolved (text : List Char) : Resolved → Except Misfit Json
  | .null => .ok .null
  | .bool b => .ok (.bool b)
  | .int i => .ok (.ofInt i)
  | .hugeInt _ => .error .hugeNumber
  | .float x => .ok (.ofBinary64 x)
  | .notANumber => .ok .null
  | .text => .ok (.string (String.ofList text))

mutual

def value (fuel depth : Nat) (path : Path) : Reader Json := do
  match fuel with
  | 0 => throw .tooManyAliases
  | fuel + 1 =>
    let (start, place) ← next
    let tagged := Misfit.wrongType .taggedValue "any valid JSON value"
    match start with
    | .alias anchor => jump anchor (value fuel depth (.aliased path))
    | .scalar text style tag =>
      if Tag.isLocal tag then misfit tagged place path
      match resolve text style tag >>= ofResolved text with
      | .ok v => return v
      | .error m => misfit m place path
    | .sequence tag =>
      if Tag.isLocal tag then misfit tagged place path
      match depth with
      | 0 => throw (.tooDeep place)
      | depth + 1 => items fuel depth path []
    | .map tag =>
      if Tag.isLocal tag then misfit tagged place path
      match depth with
      | 0 => throw (.tooDeep place)
      | depth + 1 => fields fuel depth path []
    | .sequenceEnd | .mapEnd | .nothing => return .null

def items (fuel depth : Nat) (path : Path) (done : List Json) : Reader Json := do
  match fuel with
  | 0 => throw .tooManyAliases
  | fuel + 1 =>
    match (← peek).1 with
    | .sequenceEnd =>
      let _ ← next
      return .array done.reverse
    | _ =>
      let v ← value fuel depth (.item path done.length)
      items fuel depth path (v :: done)

def fields (fuel depth : Nat) (path : Path) (done : List (String × Json)) : Reader Json := do
  match fuel with
  | 0 => throw .tooManyAliases
  | fuel + 1 =>
    let (start, _) ← peek
    match start with
    | .mapEnd =>
      let _ ← next
      return .object done
    | _ =>
      let name ← text fuel path (if done.isEmpty then "a string key" else "a string")
      let inner := match start with
        | .scalar text _ _ => Path.key path text
        | _ => .unnamed path
      let v ← value fuel depth inner
      fields fuel depth path (Json.put name v done)

end

end Reader

def read (text : List Char) : Except Misreading Json := do
  let ns := Nodes.ofText text
  let (v, _) ← (Reader.value (140 * (ns.starts.size + 4)) 128 .root ns).run ⟨0, 0⟩
  ns.complete
  return v

end ConstraintDesk.Yaml
