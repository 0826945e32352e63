import ConstraintDesk.Machine.Files
import ConstraintDesk.Machine.Regex
/-! Patterns with wildcards. A sign that was quoted stands for itself. -/
namespace ConstraintDesk.Machine.Glob

abbrev Sign := Char × Bool

def isWild (s : Sign) : Bool := !s.2 && (s.1 = '*' || s.1 = '?' || s.1 = '[')

def bracket? (p : List Sign) : Option ((Char → Bool) × List Sign) :=
  let (negated, r) := match p with
    | ('!', false) :: r | ('^', false) :: r => (true, r)
    | _ => (false, p)
  match Regex.readSet true [] (r.map (·.1)) with
  | .ok (ranges, rest) =>
    some (fun c => Regex.inRanges ranges c != negated, r.drop (r.length - rest.length))
  | .error _ => none

def accepts (fuel : Nat) (p : List Sign) (b : Bytes) : Bool :=
  match fuel with
  | 0 => false
  | fuel + 1 =>
    match p, b with
    | [], [] => true
    | [], _ :: _ => false
    | ('*', false) :: r, [] => accepts fuel r []
    | ('*', false) :: r, c :: b => accepts fuel r (c :: b) || accepts fuel (('*', false) :: r) b
    | ('?', false) :: r, _ :: b => accepts fuel r b
    | ('[', false) :: r, c :: b =>
      match bracket? r with
      | some (f, rest) => f c && accepts fuel rest b
      | none => c = '[' && accepts fuel r b
    | (x, _) :: r, c :: b => x = c && accepts fuel r b
    | _ :: _, [] => false

def isMatch (p : List Sign) (b : Bytes) : Bool := accepts (p.length + b.length + 2) p b

def parts (p : List Sign) : List (List Sign) :=
  p.foldr (fun s pieces =>
    if s.1 = '/' then [] :: pieces
    else match pieces with
      | [] => [[s]]
      | piece :: later => (s :: piece) :: later) [[]]

def follow (files : Files) (place : Place) (path : Bytes) : List (List Sign) → List Bytes
  | [] => [path]
  | part :: rest =>
    let next (name : Bytes) : Bytes := path ++ name ++ (if rest.isEmpty then [] else ['/'])
    if part.any isWild then
      let hidden := part.head?.map (·.1) = some '.'
      ((files.names place).filter fun n => (hidden || n.head? != some '.') && isMatch part n).flatMap
        fun name =>
          if rest.isEmpty || files.isFolder (place ++ [name]) then
            follow files (place ++ [name]) (next name) rest
          else []
    else
      let name := part.map (·.1)
      if name.isEmpty then follow files place (next []) rest
      else match files.step place name with
        | .ok q => if (files.entry? q).isSome then follow files q (next name) rest else []
        | .error _ => []

def expand (files : Files) (folder : Place) (field : List Sign) : List Bytes :=
  let itself := field.map (·.1)
  if !field.any isWild then [itself]
  else
    let found := match field with
      | ('/', _) :: r => follow files [] ['/'] (parts r)
      | _ => follow files folder [] (parts field)
    if found.isEmpty then [itself] else found

end ConstraintDesk.Machine.Glob
