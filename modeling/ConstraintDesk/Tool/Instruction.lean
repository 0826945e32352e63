import ConstraintDesk.Machine.Regex
/-! Scripts of the line editor: instructions, each for certain lines only, and how they are read. -/
namespace ConstraintDesk.Tool

open Machine

inductive Address where
  | line (n : Nat)
  | every (first step : Nat)
  | behind (n : Nat)
  | last
  | pattern (r : Regex) (ignoreCase : Bool)

inductive Casing where
  | asIs
  | all (upper : Bool)
  | first (upper : Bool)

inductive Part where
  | text (b : Bytes)
  | group (n : Nat)
  | casing (c : Casing)

structure Substitution where
  pattern : Regex
  replacement : List Part
  all : Bool
  print : Bool
  ignoreCase : Bool
  nth : Nat

inductive Action where
  | substitute (s : Substitution)
  | print
  | printFirst
  | delete
  | deleteFirst
  | quit (status : Nat) (silent : Bool)
  | number
  | transliterate (source target : Bytes)
  | append (text : Bytes)
  | insert (text : Bytes)
  | change (text : Bytes)
  | readFile (path : Bytes)
  | clear
  | next
  | join
  | hold (more : Bool)
  | recall (more : Bool)
  | exchange
  | jump (replaced : Option Bool) (label : Bytes)
  | label (name : Bytes)
  | blockStart
  | blockEnd
  | nothing

structure Instruction where
  addresses : List Address
  negated : Bool
  action : Action

namespace Instruction

inductive Fault where
  | openCommand (letter : Char)
  | openAddress
  | unknownCommand (letter : Char)
  | noCommand
  | unknownOption
  | repeatedOption (letter : Char)
  | zeroOption
  | zeroAddress
  | moreText
  | openBlock
  | strayBlockEnd
  | strayComma
  | noText
  | lengths
  | emptyLabel
  | noLabel (name : Bytes)
  | badReference (letter : Char)
  | pattern (fault : Regex.Fault)

def Fault.message : Fault → String
  | .openCommand c => s!"unterminated \x60{c}' command"
  | .openAddress => "unterminated address regex"
  | .unknownCommand c => s!"unknown command: \x60{c}'"
  | .noCommand => "missing command"
  | .unknownOption => "unknown option to \x60s'"
  | .repeatedOption c => s!"multiple \x60{c}' options to \x60s' command"
  | .zeroOption => "number option to \x60s' command may not be zero"
  | .zeroAddress => "invalid usage of line address 0"
  | .moreText => "extra characters after command"
  | .openBlock => "unmatched \x60\x7b'"
  | .strayBlockEnd => "unexpected \x60\x7d'"
  | .strayComma => "unexpected \x60,'"
  | .noText => "expected \\ after \x60a', \x60c' or \x60i'"
  | .lengths => "strings for \x60y' command are different lengths"
  | .emptyLabel => "\":\" lacks a label"
  | .noLabel name => s!"can't find label for jump to \x60{Bytes.toString name}'"
  | .badReference c => s!"invalid reference \\{c} on \x60s' command's RHS"
  | .pattern fault => fault.message

abbrev Parse (α : Type) := Except (Fault × Bytes) α

def Fault.at {α : Type} (fault : Fault) (rest : Bytes) : Parse α := .error (fault, rest)

def bracket? (done : Bytes) (first : Bool) : Bytes → Option (Bytes × Bytes)
  | [] => none
  | ']' :: r => if first then bracket? (']' :: done) false r else some ((']' :: done).reverse, r)
  | '^' :: r => bracket? ('^' :: done) first r
  | c :: r => bracket? (c :: done) false r

def delimited? (fuel : Nat) (brackets : Bool) (d : Char) (done : Bytes) (b : Bytes) :
    Option (Bytes × Bytes) :=
  match fuel, b with
  | 0, _ | _, [] => none
  | fuel + 1, '\\' :: c :: r =>
    if c = d then delimited? fuel brackets d (c :: done) r
    else delimited? fuel brackets d (c :: '\\' :: done) r
  | fuel + 1, c :: r =>
    if c = d then some (done.reverse, r)
    else if c = '[' && brackets then
      match bracket? [] true r with
      | some (inner, rest) => delimited? fuel brackets d (inner.reverse ++ '[' :: done) rest
      | none => none
    else delimited? fuel brackets d (c :: done) r

def partTo? (brackets : Bool) (d : Char) (b : Bytes) : Option (Bytes × Bytes) :=
  delimited? (b.length + 1) brackets d [] b

def skipBlanks (b : Bytes) : Bytes := b.dropWhile Bytes.isBlank

def expression (extended : Bool) (source rest : Bytes) : Parse Regex :=
  match Regex.parse extended source with
  | .ok r => .ok r
  | .error fault => (Fault.pattern fault).at rest

def numberOf (b : Bytes) : Nat × Bytes :=
  let digits := b.takeWhile Bytes.isDigit
  (Decimal.natOf digits, b.drop digits.length)

def address? (extended : Bool) (b : Bytes) : Parse (Option (Address × Bytes)) := do
  let pattern (d : Char) (r : Bytes) : Parse (Option (Address × Bytes)) := do
    match partTo? true d r with
    | none => Fault.openAddress.at []
    | some (source, rest) =>
      let e ← expression extended source rest
      match rest with
      | 'I' :: rest => return some (.pattern e true, rest)
      | _ => return some (.pattern e false, rest)
  match b with
  | '$' :: r => return some (.last, r)
  | '/' :: r => pattern '/' r
  | '\\' :: d :: r => pattern d r
  | c :: _ =>
    if !Bytes.isDigit c then return none
    else match numberOf b with
      | (first, '~' :: r) =>
        let (step, r) := numberOf r
        return some (if step = 0 then .line first else .every first step, r)
      | (n, r) => return some (.line n, r)
  | [] => return none

def secondAddress (extended : Bool) (b : Bytes) : Parse (Address × Bytes) := do
  match b with
  | '+' :: r =>
    let (n, r) := numberOf r
    return (.behind n, r)
  | _ =>
    match ← address? extended b with
    | some found => return found
    | none => Fault.strayComma.at b.tail

def groups : Regex → Nat
  | .group _ r => groups r + 1
  | .repeated r _ _ => groups r
  | .sequence a b | .choice a b => groups a + groups b
  | _ => 0

def controlOf (c : Char) : Option Char :=
  match c with
  | 'a' => some '\x07'
  | 'f' => some '\x0c'
  | 'n' => some '\n'
  | 'r' => some '\x0d'
  | 't' => some '\t'
  | 'v' => some '\x0b'
  | _ => none

def replacementOf : Bytes → List Part
  | '\\' :: c :: r =>
    let part : Part :=
      if Bytes.isDigit c then .group (c.toNat - '0'.toNat)
      else match c with
        | 'U' => .casing (.all true)
        | 'L' => .casing (.all false)
        | 'u' => .casing (.first true)
        | 'l' => .casing (.first false)
        | 'E' => .casing .asIs
        | c => .text [(controlOf c).getD c]
    part :: replacementOf r
  | '&' :: r => .group 0 :: replacementOf r
  | c :: r => .text [c] :: replacementOf r
  | [] => []

def unescaped : Bytes → Bytes
  | '\\' :: c :: r => (controlOf c).getD c :: unescaped r
  | c :: r => c :: unescaped r
  | [] => []

def greatestGroup (parts : List Part) : Nat :=
  parts.foldl (fun n part => match part with | .group m => max n m | _ => n) 0

def optionsFault? (flags : Bytes) : Option Fault :=
  if 1 < flags.count 'g' then some (.repeatedOption 'g')
  else if 1 < flags.count 'p' then some (.repeatedOption 'p')
  else if Bytes.nat? (flags.filter Bytes.isDigit) = some 0 then some .zeroOption
  else none

def substitution (extended : Bool) (b : Bytes) : Parse (Substitution × Bytes) := do
  let unfinished : Fault := .openCommand 's'
  match b with
  | [] => unfinished.at []
  | d :: r =>
    match partTo? true d r with
    | none => unfinished.at []
    | some (source, r) =>
      match partTo? false d r with
      | none => unfinished.at []
      | some (replacement, r) =>
        let flags := r.takeWhile fun c => "gpiImM".toList.contains c || Bytes.isDigit c
        let rest := r.drop flags.length
        match rest with
        | c :: more =>
          if !([';', '\n', '\x7d', '#'].contains c || Bytes.isBlank c) then
            Fault.unknownOption.at more
        | [] => pure ()
        match optionsFault? flags with
        | some fault => fault.at rest
        | none => pure ()
        let e ← expression extended source rest
        let replacement := replacementOf replacement
        let named := greatestGroup replacement
        if groups e < named then (Fault.badReference (Nat.digitChar named)).at rest
        let s : Substitution :=
          { pattern := e
            replacement
            all := flags.contains 'g'
            print := flags.contains 'p'
            ignoreCase := flags.contains 'i' || flags.contains 'I'
            nth := (Bytes.nat? (flags.filter Bytes.isDigit)).getD 1 }
        return (s, rest)

def textFrom (done : Bytes) : Bytes → Bytes × Bytes
  | [] => (done.reverse, [])
  | '\\' :: c :: r => textFrom ((controlOf c).getD c :: done) r
  | '\n' :: r => (done.reverse, '\n' :: r)
  | c :: r => textFrom (c :: done) r

def textOf (b : Bytes) : Parse (Bytes × Bytes) :=
  match skipBlanks b with
  | [] => Fault.noText.at []
  | '\\' :: '\n' :: r => .ok (textFrom [] r)
  | '\\' :: r => .ok (textFrom [] r)
  | b => .ok (textFrom [] b)

def nameOf (b : Bytes) : Bytes × Bytes :=
  let b := b.dropWhile fun c => c = ' ' || c = '\t'
  let name := b.takeWhile fun c => c ≠ ';' && c ≠ '\n' && c ≠ '\x7d'
  ((name.reverse.dropWhile Bytes.isBlank).reverse, b.drop name.length)

def readAction (extended : Bool) (b : Bytes) : Parse (Action × Bytes) := do
  match b with
  | [] => Fault.noCommand.at []
  | c :: r =>
    match c with
    | 's' =>
      let (s, rest) ← substitution extended r
      return (.substitute s, rest)
    | 'p' => return (.print, r)
    | 'P' => return (.printFirst, r)
    | 'd' => return (.delete, r)
    | 'D' => return (.deleteFirst, r)
    | 'q' | 'Q' =>
      let (status, rest) := numberOf (r.dropWhile (· = ' '))
      return (.quit status (c = 'Q'), rest)
    | '=' => return (.number, r)
    | 'y' =>
      match r with
      | [] => (Fault.openCommand 'y').at []
      | d :: r =>
        match partTo? false d r with
        | none => (Fault.openCommand 'y').at []
        | some (source, r) =>
          match partTo? false d r with
          | none => (Fault.openCommand 'y').at []
          | some (target, rest) =>
            let (source, target) := (unescaped source, unescaped target)
            if source.length = target.length then return (.transliterate source target, rest)
            else Fault.lengths.at rest
    | 'a' => return (← textOf r).map .append id
    | 'i' => return (← textOf r).map .insert id
    | 'c' => return (← textOf r).map .change id
    | 'r' =>
      let name := (r.dropWhile (· = ' ')).takeWhile (· ≠ '\n')
      return (.readFile name, r.dropWhile (· ≠ '\n'))
    | 'n' => return (.next, r)
    | 'N' => return (.join, r)
    | 'h' => return (.hold false, r)
    | 'H' => return (.hold true, r)
    | 'g' => return (.recall false, r)
    | 'G' => return (.recall true, r)
    | 'x' => return (.exchange, r)
    | 'b' => return (nameOf r).map (.jump none) id
    | 't' => return (nameOf r).map (.jump (some true)) id
    | 'T' => return (nameOf r).map (.jump (some false)) id
    | ':' =>
      let (name, rest) := nameOf r
      if name.isEmpty then Fault.emptyLabel.at rest else return (.label name, rest)
    | 'z' => return (.clear, r)
    | '\x7b' => return (.blockStart, r)
    | '\x7d' => return (.blockEnd, r)
    | '#' => return (.nothing, r.dropWhile (· ≠ '\n'))
    | c => (Fault.unknownCommand c).at r

def instruction (extended : Bool) (b : Bytes) : Parse (Instruction × Bytes) := do
  let (addresses, b) ← match ← address? extended b with
    | none => pure ([], b)
    | some (first, r) =>
      let isZero := match first with | .line 0 => true | _ => false
      match skipBlanks r with
      | ',' :: r =>
        let (second, r) ← secondAddress extended (skipBlanks r)
        let isPattern := match second with | .pattern _ _ => true | _ => false
        if isZero && !isPattern then Fault.zeroAddress.at r
        pure ([first, second], r)
      | r =>
        if isZero then Fault.zeroAddress.at r.tail
        pure ([first], r)
  let b := skipBlanks b
  let (negated, b) := if b.head? = some '!' then (true, skipBlanks b.tail) else (false, b)
  let (action, rest) ← readAction extended b
  return (⟨addresses, negated, action⟩, rest)

def isOpen : Action → Bool
  | .blockStart | .append _ | .insert _ | .change _ | .nothing => true
  | _ => false

def script (fuel depth : Nat) (extended : Bool) (b : Bytes) : Parse (List Instruction) :=
  match fuel with
  | 0 => Fault.noCommand.at []
  | fuel + 1 =>
    match b.dropWhile fun c => Bytes.isBlank c || c = ';' with
    | [] => if depth = 0 then .ok [] else Fault.openBlock.at b
    | b => do
      let (i, rest) ← instruction extended b
      let depth ← match i.action with
        | .blockStart => pure (depth + 1)
        | .blockEnd => if depth = 0 then Fault.strayBlockEnd.at rest else pure (depth - 1)
        | _ => pure depth
      let ahead := rest.dropWhile fun c => c = ' ' || c = '\t'
      match ahead with
      | c :: r =>
        if !isOpen i.action && !(";\n\x7d#".toList.contains c) then Fault.moreText.at r
      | [] => pure ()
      return i :: (← script fuel depth extended ahead)

def missingLabel? (is : List Instruction) : Option Bytes :=
  let labels := is.filterMap fun i => match i.action with | .label name => some name | _ => none
  is.findSome? fun i =>
    match i.action with
    | .jump _ name => if name.isEmpty || labels.contains name then none else some name
    | _ => none

def ofScript (extended : Bool) (source : Bytes) : Except (String × Nat) (List Instruction) :=
  match script (source.length + 2) 0 extended source with
  | .error (fault, rest) =>
    let place := match fault with
      | .openBlock => 0
      | _ => source.length - rest.length
    .error (s!"-e expression #1, char {place}: {fault.message}", 1)
  | .ok is =>
    match missingLabel? is with
    | some name => .error ((Fault.noLabel name).message, 4)
    | none => .ok is

end Instruction
end ConstraintDesk.Tool
