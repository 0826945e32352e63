import ConstraintDesk.Machine.Regex
import ConstraintDesk.Tool.Lines
import ConstraintDesk.Tool.Output
/-! Replacing, removing and closing up single bytes. -/
namespace ConstraintDesk.Tool

open Machine

def readBytes (fuel : Nat) (done : Bytes) (b : Bytes) : Bytes :=
  match fuel with
  | 0 => done.reverse
  | fuel + 1 =>
    match b with
    | [] => done.reverse
    | '[' :: ':' :: r =>
      let name := r.takeWhile (· ≠ ':')
      let members := ((Regex.class? (String.ofList name)).getD []).flatMap fun (x, y) => between x y
      readBytes fuel (members.reverse ++ done) (r.drop (name.length + 2))
    | _ =>
      let (first, rest) := single b
      match rest with
      | '-' :: r =>
        if r.isEmpty then ('-' :: first :: done).reverse
        else
          let (last, rest) := single r
          readBytes fuel ((between first last).reverse ++ done) rest
      | _ => readBytes fuel (first :: done) rest
where
  between (x y : Char) : Bytes :=
    (List.range (y.toNat + 1 - x.toNat)).map fun k => Char.ofNat (x.toNat + k)
  single : Bytes → Char × Bytes
    | '\\' :: c :: r =>
      if '0' ≤ c && c ≤ '7' then octal 3 (c :: r) else ((control? c).getD c, r)
    | c :: r => (c, r)
    | [] => ('\x00', [])

def setOf (b : Bytes) : Bytes := readBytes (b.length + 1) [] b

def allBytes : Bytes := (List.range 256).map Char.ofNat

def table (o : Options) : Array (Option Char) :=
  let source := (o.operands[0]?.map setOf).getD []
  let source := if o.has 'c' || o.has 'C' then allBytes.filter fun c => !source.contains c else source
  let start : Array (Option Char) := (allBytes.map some).toArray
  if o.has 'd' then source.foldl (fun t c => t.setIfInBounds c.toNat none) start
  else match o.operands[1]?.map setOf with
    | none => start
    | some target =>
      let padded := target ++ List.replicate (source.length - target.length) (target.getLast?.getD '\x00')
      if target.isEmpty then start
      else (source.zip padded).foldl (fun t (c, d) => t.setIfInBounds c.toNat (some d)) start

def squeeze (set : Bytes) (b : Bytes) : Bytes :=
  (b.foldl (fun done c => if done.head? = some c && set.contains c then done else c :: done) []).reverse

def tr (args : List Bytes) : Work Nat := do
  let o := Options.read [] false none args
  match o.operands with
  | [] =>
    misused "tr" "missing operand"
  | [a] =>
    if !o.has 'd' && !o.has 's' then
      let after := s!"missing operand after '{Bytes.toString a}'"
      misused "tr" (after ++ "\nTwo strings must be given when translating.")
    else run o
  | _ => run o
where
  run (o : Options) : Work Nat := do
    let t := table o
    let apply (b : Bytes) : Bytes := b.filterMap fun c => (t[c.toNat]?).getD (some c)
    let s ← Work.input
    let squeezed := (o.operands.getLast?.map setOf).getD []
    let s := { s with ready := apply s.ready, cycle := apply s.cycle }
    if o.has 's' then
      Work.print (squeeze squeezed (← Work.finite s))
    else Work.pour s
    return 0

end ConstraintDesk.Tool
