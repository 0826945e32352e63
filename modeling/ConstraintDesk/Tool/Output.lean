import ConstraintDesk.Tool.Work
/-! Tools that print what they are told: echo, printf, seq, yes. -/
namespace ConstraintDesk.Tool

attribute [local instance (high)] instPowNat

open Machine

def octal (most : Nat) (b : Bytes) : Char × Bytes :=
  let digits := (b.take most).takeWhile fun c => '0' ≤ c && c ≤ '7'
  (Char.ofNat ((digits.foldl (fun n c => n * 8 + (c.toNat - 48)) 0) % 256), b.drop digits.length)

def control? : Char → Option Char
  | '\\' => some '\\'
  | 'a' => some '\x07'
  | 'b' => some '\x08'
  | 'f' => some '\x0c'
  | 'n' => some '\n'
  | 'r' => some '\r'
  | 't' => some '\t'
  | 'v' => some '\x0b'
  | _ => none

def unescape (argument : Bool) (done : Bytes) : Bytes → Bytes × Bool
  | [] => (done.reverse, true)
  | '\\' :: c :: r =>
    if argument && c = 'c' then (done.reverse, false)
    else if '0' ≤ c && c ≤ '7' then
      let (byte, rest) := octal 3 (if argument && c = '0' then r else c :: r)
      if _h : rest.length ≤ r.length then unescape argument (byte :: done) rest
      else (done.reverse, true)
    else match control? c with
      | some byte => unescape argument (byte :: done) r
      | none => unescape argument (c :: '\\' :: done) r
  | c :: r => unescape argument (c :: done) r
termination_by b => b.length
decreasing_by all_goals simp only [List.length_cons]; omega

def join (separator : Char) (items : List Bytes) : Bytes := [separator].intercalate items

def echo (args : List Bytes) : Work Nat := do
  let (newline, args) := match args with
    | ['-', 'n'] :: rest => (false, rest)
    | _ => (true, args)
  let (b, goesOn) := unescape true [] (join ' ' args)
  let fine ← Work.writeTo 1 (if newline && goesOn then b ++ ['\n'] else b)
  if fine then return 0
  Work.grumble "echo: echo: I/O error"
  return 1

def echoProgram (args : List Bytes) : Work Nat := do
  let isFlag (a : Bytes) : Bool :=
    match a with
    | '-' :: c :: r => (c :: r).all fun c => c = 'n' || c = 'e' || c = 'E'
    | _ => false
  let flags := (args.takeWhile isFlag).flatten
  let last := flags.reverse.find? fun c => c = 'e' || c = 'E'
  let text := join ' ' (args.dropWhile isFlag)
  let (b, goesOn) := if last = some 'e' then unescape true [] text else (text, true)
  Work.print (if flags.contains 'n' || !goesOn then b else b ++ ['\n'])
  return 0

structure Directive where
  flags : Bytes
  width : Option Nat
  precision : Option Nat
  letter : Char

def formatNumber (b : Bytes) (args : List Bytes) : Option Nat × Bytes × List Bytes :=
  match b with
  | '*' :: r => (((args.head?.bind Bytes.nat?).getD 0), r, args.tail)
  | _ =>
    let digits := b.takeWhile Bytes.isDigit
    (Bytes.nat? digits, b.drop digits.length, args)

def directive? (b : Bytes) (args : List Bytes) : Option (Directive × Bytes × List Bytes) :=
  let flags := b.takeWhile fun c => c = '-' || c = '+' || c = ' ' || c = '#' || c = '0'
  let (width, b, args) := formatNumber (b.drop flags.length) args
  let (precision, b, args) := match b with
    | '.' :: r =>
      let (p, b, args) := formatNumber r args
      (some (p.getD 0), b, args)
    | _ => (none, b, args)
  match b with
  | c :: r => some (⟨flags, width, precision, c⟩, r, args)
  | [] => none

def Directive.pad (d : Directive) (numeric : Bool) (b : Bytes) : Bytes :=
  let width := d.width.getD 0
  if d.flags.contains '-' then b ++ List.replicate (width - b.length) ' '
  else if numeric && d.flags.contains '0' && d.precision.isNone then
    match b with
    | '-' :: r => '-' :: Bytes.padLeft (width - 1) r '0'
    | _ => Bytes.padLeft width b '0'
  else Bytes.padLeft width b ' '

def argumentInt? (b : Bytes) : Option (Int × Bytes) :=
  let digitsIn (base : Nat) (r : Bytes) : Option (Nat × Bytes) :=
    let word := r.takeWhile fun c => (Decimal.digitIn? base c).isSome
    (Decimal.natIn? base word).map fun n => (n, r.drop word.length)
  let magnitude (r : Bytes) : Option (Nat × Bytes) :=
    match r with
    | '0' :: 'x' :: h | '0' :: 'X' :: h => (digitsIn 16 h).or (some (0, r.tail))
    | '0' :: _ => digitsIn 8 r
    | _ => digitsIn 10 r
  match b with
  | [] => some (0, [])
  | '\'' :: c :: _ | '"' :: c :: _ => some (c.toNat, [])
  | _ =>
    let (negative, r) := Decimal.splitSign b
    (magnitude r).map fun (n, rest) => (if negative then - (n : Int) else n, rest)

def argumentFloat? (b : Bytes) : Option (Binary64 × Bytes) :=
  if b.isEmpty then some (.zero, [])
  else (List.range (b.length + 1)).reverse.findSome? fun n =>
    (Decimal.float? (b.take n)).map fun x => (x, b.drop n)

def Directive.sign (d : Directive) (negative : Bool) : Bytes :=
  if negative then ['-'] else if d.flags.contains '+' then ['+']
  else if d.flags.contains ' ' then [' '] else []

def Directive.number (d : Directive) (i : Int) : Bytes :=
  let base := if d.letter = 'x' || d.letter = 'X' then 16 else if d.letter = 'o' then 8 else 10
  let signed := d.letter = 'd' || d.letter = 'i'
  let magnitude := if signed then i.natAbs else (if i < 0 then (i + 2 ^ (64 : Nat)).toNat else i.toNat)
  let digits := Bytes.padLeft (d.precision.getD 0) (Nat.toDigits base magnitude) '0'
  let digits := if d.letter = 'X' then digits.map Char.toUpper else digits
  let mark := if !d.flags.contains '#' || i = 0 then []
    else if d.letter = 'x' || d.letter = 'X' then ['0', d.letter]
    else if d.letter = 'o' then ['0'] else []
  d.pad true ((if signed then d.sign (i < 0) else []) ++ mark ++ digits)

def Directive.fixed (d : Directive) (x : Binary64) : Bytes :=
  let places := d.precision.getD 6
  let (num, den) := Binary64.ratio x.code
  let digits := Bytes.padLeft (places + 1)
    (Nat.toDigits 10 (Binary64.roundHalfEven (num * 10 ^ places) den)) '0'
  let whole := digits.take (digits.length - places)
  let point := if places = 0 && !d.flags.contains '#' then [] else ['.']
  let text := d.sign x.negative ++ whole ++ point ++ digits.drop whole.length
  { d with precision := none }.pad true text

structure Printed where
  output : List Bytes
  args : List Bytes
  tookAny : Bool
  complaints : List String
  goesOn : Bool
  fault : Option String

def Printed.add (p : Printed) (b : Bytes) : Printed := { p with output := b :: p.output }

def Printed.putNumber {α : Type} (p : Printed) (a : Bytes) (found : Option (α × Bytes))
    (write : α → Bytes) (zero : α) : Printed :=
  match found with
  | some (x, []) => p.add (write x)
  | some (x, _) =>
    { p.add (write x) with
      complaints := s!"{Bytes.toString a}: not completely converted" :: p.complaints }
  | none =>
    { p.add (write zero) with
      complaints := s!"{Bytes.toString a}: expected numeric value" :: p.complaints }

def Printed.put (p : Printed) (d : Directive) (args : List Bytes) : Printed :=
  let a := args.head?.getD []
  let p := { p with args := args.tail, tookAny := true }
  match d.letter with
  | 's' => p.add (d.pad false (match d.precision with | some n => a.take n | none => a))
  | 'c' => p.add (d.pad false (a.take 1))
  | 'b' =>
    let (b, goesOn) := unescape true [] a
    { p.add (d.pad false b) with goesOn }
  | 'f' | 'F' => p.putNumber a (argumentFloat? (a.dropWhile Bytes.isBlank)) d.fixed .zero
  | 'd' | 'i' | 'u' | 'o' | 'x' | 'X' =>
    p.putNumber a (argumentInt? (a.dropWhile Bytes.isBlank)) d.number 0
  | c => { p with goesOn := false, fault := some s!"%{c}: invalid directive" }

def format (fuel : Nat) (p : Printed) (b : Bytes) : Printed :=
  match fuel with
  | 0 => p
  | fuel + 1 =>
    if !p.goesOn then p
    else match b with
      | [] => p
      | '%' :: '%' :: r => format fuel (p.add ['%']) r
      | '%' :: r =>
        match directive? r p.args with
        | some (d, rest, args) => format fuel (p.put d args) rest
        | none => { p with goesOn := false, fault := some "missing format character" }
      | '\\' :: c :: r =>
        if '0' ≤ c && c ≤ '7' then
          let (byte, rest) := octal 3 (c :: r)
          format fuel (p.add [byte]) rest
        else if c = 'c' then { p with goesOn := false }
        else format fuel (p.add ((control? c).elim ['\\', c] fun byte => [byte])) r
      | c :: r => format fuel (p.add [c]) r

def formatAll (fuel : Nat) (b : Bytes) (p : Printed) : Printed :=
  match fuel with
  | 0 => p
  | fuel + 1 =>
    let p := format (b.length + 1) { p with tookAny := false } b
    if p.goesOn && p.tookAny && !p.args.isEmpty then formatAll fuel b p else p

def printf (args : List Bytes) : Work Nat := do
  match (if args.head? = some ['-', '-'] then args.tail else args) with
  | [] =>
    Work.grumble "printf: usage: printf format [arg ...]"
    return 2
  | b :: args =>
    let p := formatAll (args.length + 1) b ⟨[], args, false, [], true, none⟩
    p.complaints.reverse.forM fun text => Work.grumble s!"printf: {text}"
    let fine ← Work.writeTo 1 p.output.reverse.flatten
    if !fine then Work.grumble "printf: printf: I/O error"
    match p.fault with
    | some text =>
      Work.grumble s!"printf: {text}"
      return 2
    | none => return if fine && p.complaints.isEmpty then 0 else 1

def counted (first step last : Int) : List Int :=
  if step = 0 || (0 < step && last < first) || (step < 0 && first < last) then []
  else (List.range (((last - first) / step).toNat + 1)).map fun (k : Nat) => first + step * (k : Int)

def seq (args : List Bytes) : Work Nat := do
  let o := Options.read ['s', 'f'] false none args
  let separator := (o.value? 's').getD ['\n']
  let print (first step last : Int) : Work Nat := do
    let numbers := (counted first step last).map Bytes.ofInt
    let width := (numbers.map List.length).foldl max 0
    let numbers := if o.has 'w' then numbers.map (Bytes.padLeft width · '0') else numbers
    if !numbers.isEmpty then Work.print (separator.intercalate numbers ++ ['\n'])
    return 0
  match o.operands.mapM Bytes.int? with
  | some [] => missingOperand "seq"
  | some [last] => print 1 1 last
  | some [first, last] => print first 1 last
  | some [first, step, last] => print first step last
  | some (_ :: _ :: _ :: extra :: _) => misused "seq" s!"extra operand '{Bytes.toString (Bytes.ofInt extra)}'"
  | none =>
    let bad := (o.operands.find? fun a => (Bytes.int? a).isNone).getD []
    misused "seq" s!"invalid floating point argument: '{Bytes.toString bad}'"

def yes (args : List Bytes) : Work Nat := do
  let line := (if args.isEmpty then ['y'] else join ' ' args) ++ ['\n']
  Work.pour ⟨[], line, none⟩
  return 0

end ConstraintDesk.Tool
