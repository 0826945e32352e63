import ConstraintDesk.Shell.Script
/-! Reading scripts. A script is read line by line, each up to the end of the command that it starts, so
that what precedes a fault still runs. -/
namespace ConstraintDesk.Shell

open Machine

inductive Lexeme where
  | ending
  | lineBreak
  | operator (text : String)
  | redirection
  | keyword (text : String)
  | word
  deriving DecidableEq

namespace Lexeme

def name : Lexeme → String
  | .ending => "end of file"
  | .lineBreak => "newline"
  | .operator text | .keyword text => "\"" ++ text ++ "\""
  | .redirection => "redirection"
  | .word => "word"

def closes : Lexeme → Bool
  | .ending => true
  | .operator text => text = ")" || text = ";;"
  | .keyword text => ["then", "else", "elif", "fi", "do", "done", "esac", "\x7d"].contains text
  | _ => false

def isWord : Lexeme → Bool
  | .keyword _ | .word => true
  | _ => false

end Lexeme

inductive ScriptError where
  | openQuote
  | openBackquote
  | openBrace
  | openArithmetic
  | badLoopName
  | unexpected (found : Lexeme) (expected : Option Lexeme)
  deriving DecidableEq

def ScriptError.message : ScriptError → String
  | .openQuote => "Unterminated quoted string"
  | .openBackquote => "EOF in backquote substitution"
  | .openBrace => "Missing '\x7d'"
  | .openArithmetic => "Missing '))'"
  | .badLoopName => "Bad for loop variable"
  | .unexpected found none => found.name ++ " unexpected"
  | .unexpected found (some expected) =>
    found.name ++ " unexpected (expecting " ++ expected.name ++ ")"

structure ScriptFault where
  error : ScriptError
  line : Nat

abbrev Fallible := Except ScriptFault

def lineBefore (total : Nat) (rest : Bytes) : Nat := total + 1 - rest.count '\n'

def fault {α : Type} (total : Nat) (error : ScriptError) (rest : Bytes) : Fallible α :=
  .error ⟨error, lineBefore total rest⟩

def exhausted {α : Type} : Fallible α := .error ⟨.unexpected .ending none, 0⟩

def backquoted? (quoted : Bool) (done : Bytes) : Bytes → Option (Bytes × Bytes)
  | [] => none
  | '\x60' :: r => some (done.reverse, r)
  | '\\' :: c :: r =>
    if c = '\x60' || c = '\\' || c = '$' || (quoted && c = '"') then
      backquoted? quoted (c :: done) r
    else backquoted? quoted (c :: '\\' :: done) r
  | c :: r => backquoted? quoted (c :: done) r

def isNameStart (c : Char) : Bool := ('a' ≤ c && c ≤ 'z') || ('A' ≤ c && c ≤ 'Z') || c = '_'

def isNameChar (c : Char) : Bool := isNameStart c || Bytes.isDigit c

def isName (b : Bytes) : Bool := b.head?.any isNameStart && b.all isNameChar

def isSpecial (c : Char) : Bool := ['@', '*', '#', '?', '$', '!', '-'].contains c

def isMeta (c : Char) : Bool := [' ', '\t', '\n', ';', '&', '|', '<', '>', '(', ')'].contains c

def parameterName (cs : Bytes) : Bytes :=
  match cs with
  | c :: r =>
    if isNameStart c then c :: r.takeWhile isNameChar
    else if Bytes.isDigit c || isSpecial c then [c] else []
  | [] => []

def bracedName (cs : Bytes) : Bytes :=
  if cs.head?.any Bytes.isDigit then cs.takeWhile Bytes.isDigit else parameterName cs

def lengthName? : Bytes → Option (Bytes × Bytes)
  | '#' :: r =>
    let name := bracedName r
    match r.drop name.length with
    | '\x7d' :: rest => if name.isEmpty then none else some (name, rest)
    | _ => none
  | _ => none

def modifier : Bytes → Modifier × Bytes
  | ':' :: '-' :: r => (.default false, r)
  | ':' :: '=' :: r => (.assigned false, r)
  | ':' :: '+' :: r => (.alternative false, r)
  | ':' :: '?' :: r => (.required false, r)
  | '-' :: r => (.default true, r)
  | '=' :: r => (.assigned true, r)
  | '+' :: r => (.alternative true, r)
  | '?' :: r => (.required true, r)
  | '#' :: '#' :: r => (.withoutFront true, r)
  | '#' :: r => (.withoutFront false, r)
  | '%' :: '%' :: r => (.withoutBack true, r)
  | '%' :: r => (.withoutBack false, r)
  | r => (.unknown, r)

inductive Style where
  | bare
  | quoted
  | argument (quoted : Bool)
  | expression (depth : Nat)
  | document

namespace Style

def isQuoted : Style → Bool
  | .bare | .argument false => false
  | _ => true

def isEscapable (style : Style) (c : Char) : Bool :=
  c = '$' || c = '\x60' || c = '\\' ||
    match style with
    | .document => false
    | .argument _ => c = '"' || c = '\x7d'
    | _ => c = '"'

def openError? : Style → Option ScriptError
  | .bare | .document => none
  | .quoted | .argument true => some .openQuote
  | .argument false => some .openBrace
  | .expression _ => some .openArithmetic

end Style

def skipGap (fuel : Nat) (cs : Bytes) : Bytes :=
  match fuel, cs with
  | fuel + 1, '\\' :: '\n' :: r => skipGap fuel r
  | fuel + 1, c :: r =>
    if c = ' ' || c = '\t' then skipGap fuel r
    else if c = '#' then r.dropWhile (· ≠ '\n')
    else cs
  | _, _ => cs

def gap (cs : Bytes) : Bytes := skipGap (cs.length + 1) cs

def gaps (fuel : Nat) (cs : Bytes) : Bytes :=
  match fuel, gap cs with
  | fuel + 1, '\n' :: r => gaps fuel r
  | _, r => r

def lineGaps (cs : Bytes) : Bytes := gaps (cs.length + 1) cs

def plainWord (cs : Bytes) : Bytes := cs.takeWhile fun c => !isMeta c

def operators : List String := ["&&", "||", ";;", ";", "&", "|", "(", ")"]

def keywords : List String :=
  ["!", "case", "do", "done", "elif", "else", "esac", "fi", "for", "if", "in", "then", "until",
   "while", "\x7b", "\x7d"]

def redirectionSign? (cs : Bytes) : Option (Option Nat × Char × Bytes) :=
  let digits := (cs.take 1).takeWhile Bytes.isDigit
  match cs.drop digits.length with
  | c :: r => if c = '<' || c = '>' then some (Bytes.nat? digits, c, r) else none
  | [] => none

def lexeme (cs : Bytes) : Lexeme × Bytes :=
  match cs with
  | [] => (.ending, [])
  | '\n' :: r => (.lineBreak, r)
  | _ =>
    match operators.find? fun o => o.toList.isPrefixOf cs with
    | some o => (.operator o, cs.drop o.length)
    | none =>
      if (redirectionSign? cs).isSome then (.redirection, cs)
      else
        let word := plainWord cs
        if keywords.contains (String.ofList word) then
          (.keyword (String.ofList word), cs.drop word.length)
        else (.word, cs)

def unexpected {α : Type} (total : Nat) (cs : Bytes) (expected : Option Lexeme) : Fallible α :=
  let (found, rest) := lexeme cs
  fault total (.unexpected found expected) rest

def expect (total : Nat) (expected : Lexeme) (cs : Bytes) : Fallible Bytes :=
  let (found, rest) := lexeme cs
  if found = expected then .ok rest else unexpected total cs (some expected)

def wholeLine : Bytes → Bytes
  | '\\' :: '\n' :: r => '\\' :: '\n' :: wholeLine r
  | c :: r => if c = '\n' then [] else c :: wholeLine r
  | [] => []

def documentLines (mark : Bytes) (dropTabs : Bool) : List Bytes → List Bytes × Nat × List Bytes
  | [] => ([], 0, [])
  | line :: rest =>
    let line := if dropTabs then line.dropWhile (· = '\t') else line
    if line = mark || line = mark ++ ['\n'] then ([], 1, rest)
    else
      let (inner, n, rest) := documentLines mark dropTabs rest
      (line :: inner, n + 1, rest)

def isQuotedPiece : Piece → Bool
  | .text quoted _ => quoted
  | _ => false

def plainText (w : Word) : Bytes := w.flatMap fun p =>
  match p with
  | .text _ b => b
  | _ => []

def assignment? (cs : Bytes) : Option (Bytes × Bytes) :=
  let name := cs.takeWhile isNameChar
  match cs.drop name.length with
  | '=' :: r => if name.head?.any isNameStart then some (name, r) else none
  | _ => none

def functionHead? (cs : Bytes) : Option (Bytes × Bytes) :=
  let name := cs.takeWhile isNameChar
  if !isName name then none
  else match gap (cs.drop name.length) with
    | '(' :: r => some (name, r)
    | _ => none

structure Parts where
  assignments : List (Bytes × Word)
  words : List Word
  redirections : List (Redirection Word)

mutual

def pieces (fuel total : Nat) (style : Style) (cs : Bytes) : Fallible (Word × Bytes) :=
  match fuel with
  | 0 => exhausted
  | fuel + 1 =>
    let after (p : Word) (style : Style) (rest : Bytes) : Fallible (Word × Bytes) := do
      let (later, rest) ← pieces fuel total style rest
      return (p ++ later, rest)
    let literal (c : Char) (style : Style) (rest : Bytes) : Fallible (Word × Bytes) :=
      after [.text style.isQuoted [c]] style rest
    match cs with
    | [] =>
      match style.openError? with
      | some error => fault total error []
      | none => .ok ([], [])
    | '\\' :: '\n' :: r => after [] style r
    | '\\' :: c :: r =>
      if style.isQuoted && !style.isEscapable c then after [.text true ['\\', c]] style r
      else after [.text true [c]] style r
    | '$' :: r => do
      let (p, rest) ← dollar fuel total style.isQuoted r
      after [p] style rest
    | '\x60' :: r =>
      match backquoted? style.isQuoted [] r with
      | none => fault total .openBackquote []
      | some (script, rest) => do
        let (body, _) ← list fuel (script.count '\n') true script
        after [.output style.isQuoted body] style rest
    | c :: r =>
      match style with
      | .document => literal c style r
      | .quoted => if c = '"' then .ok ([], r) else literal c style r
      | .expression depth =>
        if c = '(' then literal c (.expression (depth + 1)) r
        else if c = ')' then
          match depth, r with
          | 0, ')' :: rest => .ok ([], rest)
          | depth, r => literal c (.expression (depth - 1)) r
        else if c = '"' then after [] style r
        else literal c style r
      | .argument true =>
        if c = '\x7d' then .ok ([], r)
        else if c = '"' then do
          let (inner, rest) ← pieces fuel total .quoted r
          after inner style rest
        else literal c style r
      | .argument false | .bare =>
        if c = '\'' then
          let text := r.takeWhile (· ≠ '\'')
          match r.drop text.length with
          | _ :: rest => after [.text true text] style rest
          | [] => fault total .openQuote []
        else if c = '"' then do
          let (inner, rest) ← pieces fuel total .quoted r
          after (if inner.isEmpty then [.text true []] else inner) style rest
        else match style with
          | .bare => if isMeta c then .ok ([], cs) else literal c style r
          | _ => if c = '\x7d' then .ok ([], r) else literal c style r

def dollar (fuel total : Nat) (quoted : Bool) (cs : Bytes) : Fallible (Piece × Bytes) :=
  match fuel with
  | 0 => exhausted
  | fuel + 1 =>
    match cs with
    | '(' :: '(' :: r => do
      let (expression, rest) ← pieces fuel total (.expression 0) r
      return (.arithmetic quoted expression, rest)
    | '(' :: r => do
      let (body, rest) ← list fuel total true r
      return (.output quoted body, ← expect total (.operator ")") rest)
    | '\x7b' :: r =>
      match lengthName? r with
      | some (name, rest) => .ok (.parameter quoted name .length [], rest)
      | none => do
        let name := bracedName r
        match r.drop name.length with
        | '\x7d' :: rest => return (.parameter quoted name (if name.isEmpty then .unknown else .plain) [], rest)
        | r =>
          let (m, r) := modifier r
          let m := if name.isEmpty then .unknown else m
          let (argument, rest) ← pieces fuel total (.argument (quoted && !m.takesPattern)) r
          return (.parameter quoted name m argument, rest)
    | _ =>
      let name := parameterName cs
      if name.isEmpty then .ok (.text quoted ['$'], cs)
      else .ok (.parameter quoted name .plain [], cs.drop name.length)

def here (fuel total : Nat) (dropTabs : Bool) (cs : Bytes) : Fallible (Source Word × Bytes) := do
  match fuel with
  | 0 => exhausted
  | fuel + 1 =>
    let (mark, rest) ← pieces fuel total .bare (gap cs)
    let line := wholeLine rest
    let below := Bytes.fullLines (rest.drop (line.length + 1))
    let (inner, n, later) := documentLines (plainText mark) dropTabs below
    let (word, _) ← if mark.any isQuotedPiece then pure ([Piece.text true inner.flatten], [])
      else pieces fuel total .document inner.flatten
    let joint := (List.replicate n ['\\', '\n']).flatten
    return (.document word, line ++ ' ' :: joint ++ '\n' :: later.flatten)

def redirection? (fuel total : Nat) (cs : Bytes) : Fallible (Option (Redirection Word × Bytes)) :=
  match fuel with
  | 0 => exhausted
  | fuel + 1 =>
    match redirectionSign? cs with
    | none => .ok none
    | some (channel, sign, r) => do
      let word (d : Direction) (make : Word → Source Word) (r : Bytes) :
          Fallible (Option (Redirection Word × Bytes)) := do
        let (w, rest) ← pieces fuel total .bare (gap r)
        if w.isEmpty then unexpected total rest none
        else return some (⟨channel.getD (if d = .input then 0 else 1), d, make w⟩, rest)
      match sign, r with
      | '<', '<' :: '-' :: r =>
        let (source, rest) ← here fuel total true r
        return some (⟨channel.getD 0, .input, source⟩, rest)
      | '<', '<' :: r =>
        let (source, rest) ← here fuel total false r
        return some (⟨channel.getD 0, .input, source⟩, rest)
      | '<', '&' :: r => word .input .channel r
      | '<', '>' :: r => word .input .file r
      | '<', _ => word .input .file r
      | _, '>' :: r => word .append .file r
      | _, '&' :: r => word .output .channel r
      | _, '|' :: r => word .output .file r
      | _, _ => word .output .file r

def redirections (fuel total : Nat) (cs : Bytes) : Fallible (List (Redirection Word) × Bytes) :=
  match fuel with
  | 0 => exhausted
  | fuel + 1 => do
    let cs := gap cs
    match ← redirection? fuel total cs with
    | some (r, rest) =>
      let (later, rest) ← redirections fuel total rest
      return (r :: later, rest)
    | none => return ([], cs)

def simpleParts (fuel total : Nat) (inFront : Bool) (cs : Bytes) : Fallible (Parts × Bytes) :=
  match fuel with
  | 0 => exhausted
  | fuel + 1 => do
    let cs := gap cs
    match ← redirection? fuel total cs with
    | some (r, rest) =>
      let (p, rest) ← simpleParts fuel total inFront rest
      return ({ p with redirections := r :: p.redirections }, rest)
    | none =>
      if cs.isEmpty || cs.head?.any isMeta then return (⟨[], [], []⟩, cs)
      match inFront, assignment? cs with
      | true, some (name, r) =>
        let (w, rest) ← pieces fuel total .bare r
        let (p, rest) ← simpleParts fuel total true rest
        return ({ p with assignments := (name, w) :: p.assignments }, rest)
      | _, _ =>
        let (w, rest) ← pieces fuel total .bare cs
        let (p, rest) ← simpleParts fuel total false rest
        return ({ p with words := w :: p.words }, rest)

def wordsOfLine (fuel total : Nat) (cs : Bytes) : Fallible (List Word × Bytes) :=
  match fuel with
  | 0 => exhausted
  | fuel + 1 => do
    let cs := gap cs
    if (lexeme cs).1.isWord then
      let (w, rest) ← pieces fuel total .bare cs
      let (later, rest) ← wordsOfLine fuel total rest
      return (w :: later, rest)
    else return ([], cs)

def patterns (fuel total : Nat) (cs : Bytes) : Fallible (List Word × Bytes) :=
  match fuel with
  | 0 => exhausted
  | fuel + 1 => do
    let cs := gap cs
    let (w, rest) ← if (lexeme cs).1.isWord then pieces fuel total .bare cs else pure ([], (lexeme cs).2)
    match gap rest with
    | '|' :: r =>
      let (later, rest) ← patterns fuel total r
      return (w :: later, rest)
    | r => return ([w], ← expect total (.operator ")") r)

def list (fuel total : Nat) (mayBeEmpty : Bool) (cs : Bytes) : Fallible (Command × Bytes) :=
  match fuel with
  | 0 => exhausted
  | fuel + 1 => do
    let cs := lineGaps cs
    let ahead := (lexeme cs).1
    if ahead = .ending || (mayBeEmpty && ahead.closes) then return (.nothing, cs)
    let (first, rest) ← andOr fuel total cs
    let more (first : Command) (r : Bytes) : Fallible (Command × Bytes) := do
      let (later, rest) ← list fuel total true r
      return (.sequence first later, rest)
    let rest := gap rest
    match lexeme rest with
    | (.operator ";", r) | (.lineBreak, r) => more first r
    | (.operator "&", r) => more (.background first) r
    | _ => return (first, rest)

def andOr (fuel total : Nat) (cs : Bytes) : Fallible (Command × Bytes) :=
  match fuel with
  | 0 => exhausted
  | fuel + 1 => do
    let (first, rest) ← pipeline fuel total cs
    andOrRest fuel total first rest

def andOrRest (fuel total : Nat) (first : Command) (cs : Bytes) : Fallible (Command × Bytes) :=
  match fuel with
  | 0 => exhausted
  | fuel + 1 => do
    let cs := gap cs
    match lexeme cs with
    | (.operator "&&", r) =>
      let (second, rest) ← pipeline fuel total (lineGaps r)
      andOrRest fuel total (.both first second) rest
    | (.operator "||", r) =>
      let (second, rest) ← pipeline fuel total (lineGaps r)
      andOrRest fuel total (.either first second) rest
    | _ => return (first, cs)

def pipeline (fuel total : Nat) (cs : Bytes) : Fallible (Command × Bytes) :=
  match fuel with
  | 0 => exhausted
  | fuel + 1 => do
    let cs := gap cs
    match lexeme cs with
    | (.keyword "!", r) =>
      let (first, rest) ← command fuel total (gap r)
      let (body, rest) ← pipes fuel total first rest
      return (.negated body, rest)
    | _ =>
      let (first, rest) ← command fuel total cs
      pipes fuel total first rest

def pipes (fuel total : Nat) (first : Command) (cs : Bytes) : Fallible (Command × Bytes) :=
  match fuel with
  | 0 => exhausted
  | fuel + 1 => do
    let cs := gap cs
    match lexeme cs with
    | (.operator "|", r) =>
      let (second, rest) ← command fuel total (lineGaps r)
      let (later, rest) ← pipes fuel total second rest
      return (.pipe first later, rest)
    | _ => return (first, cs)

def command (fuel total : Nat) (cs : Bytes) : Fallible (Command × Bytes) :=
  match fuel with
  | 0 => exhausted
  | fuel + 1 =>
    let withRedirections (c : Command) (rest : Bytes) : Fallible (Command × Bytes) := do
      let (rs, rest) ← redirections fuel total rest
      return (if rs.isEmpty then c else .redirected c rs, rest)
    match lexeme cs with
    | (.operator "(", r) => do
      let (body, rest) ← list fuel total false r
      withRedirections (.subshell body) (← expect total (.operator ")") rest)
    | (.keyword "\x7b", r) => do
      let (body, rest) ← list fuel total false r
      withRedirections body (← expect total (.keyword "\x7d") rest)
    | (.keyword "if", r) => do
      let (c, rest) ← choice fuel total r
      withRedirections c rest
    | (.keyword "while", r) => do
      let (c, rest) ← loop fuel total false r
      withRedirections c rest
    | (.keyword "until", r) => do
      let (c, rest) ← loop fuel total true r
      withRedirections c rest
    | (.keyword "for", r) => do
      let (c, rest) ← each fuel total (gap r)
      withRedirections c rest
    | (.keyword "case", r) => do
      let r := gap r
      if !(lexeme r).1.isWord then unexpected total r (some .word)
      else
        let (subject, rest) ← pieces fuel total .bare r
        let rest ← expect total (.keyword "in") (lineGaps rest)
        let (branches, rest) ← branches fuel total rest
        withRedirections (.cases subject branches) rest
    | (.redirection, _) => simpleCommand fuel total cs
    | (.word, _) =>
      match functionHead? cs with
      | some (name, r) => do
        let rest ← expect total (.operator ")") (gap r)
        let (body, rest) ← command fuel total (lineGaps rest)
        return (.function name body, rest)
      | none => simpleCommand fuel total cs
    | _ => unexpected total cs none

def simpleCommand (fuel total : Nat) (cs : Bytes) : Fallible (Command × Bytes) :=
  match fuel with
  | 0 => exhausted
  | fuel + 1 => do
    let (p, rest) ← simpleParts fuel total true cs
    return (.simple (lineBefore total cs) p.assignments p.words p.redirections, rest)

def choice (fuel total : Nat) (cs : Bytes) : Fallible (Command × Bytes) :=
  match fuel with
  | 0 => exhausted
  | fuel + 1 => do
    let (condition, rest) ← list fuel total false cs
    let (yes, rest) ← list fuel total false (← expect total (.keyword "then") rest)
    match lexeme rest with
    | (.keyword "elif", r) =>
      let (no, rest) ← choice fuel total r
      return (.choice condition yes no, rest)
    | (.keyword "else", r) =>
      let (no, rest) ← list fuel total false r
      return (.choice condition yes no, ← expect total (.keyword "fi") rest)
    | _ => return (.choice condition yes .nothing, ← expect total (.keyword "fi") rest)

def loop (fuel total : Nat) (stopOn : Bool) (cs : Bytes) : Fallible (Command × Bytes) :=
  match fuel with
  | 0 => exhausted
  | fuel + 1 => do
    let (condition, rest) ← list fuel total false cs
    let (body, rest) ← list fuel total false (← expect total (.keyword "do") rest)
    return (.loop stopOn condition body, ← expect total (.keyword "done") rest)

def each (fuel total : Nat) (cs : Bytes) : Fallible (Command × Bytes) :=
  match fuel with
  | 0 => exhausted
  | fuel + 1 => do
    let name := plainWord cs
    if !isName name then fault total .badLoopName (lexeme cs).2
    else
      let rest := lineGaps (cs.drop name.length)
      let (words, rest) ← match lexeme rest with
        | (.keyword "in", r) => do
          let (words, rest) ← wordsOfLine fuel total r
          match lexeme rest with
          | (.operator ";", r) | (.lineBreak, r) => pure (some words, r)
          | _ => unexpected total rest none
        | (.operator ";", r) => pure (none, r)
        | _ => pure (none, rest)
      let (body, rest) ← list fuel total false (← expect total (.keyword "do") (lineGaps rest))
      return (.each name words body, ← expect total (.keyword "done") rest)

def branches (fuel total : Nat) (cs : Bytes) : Fallible (List (List Word × Command) × Bytes) :=
  match fuel with
  | 0 => exhausted
  | fuel + 1 => do
    let cs := lineGaps cs
    match lexeme cs with
    | (.keyword "esac", r) => return ([], r)
    | _ =>
      let cs := if cs.head? = some '(' then cs.tail else cs
      let (ps, rest) ← patterns fuel total cs
      let (body, rest) ← list fuel total true rest
      match lexeme rest with
      | (.keyword "esac", r) => return ([(ps, body)], r)
      | _ =>
        let (later, rest) ← branches fuel total (← expect total (.operator ";;") rest)
        return ((ps, body) :: later, rest)

end

def readLine (fuel total : Nat) (cs : Bytes) : Fallible (Command × Bytes) :=
  match fuel with
  | 0 => exhausted
  | fuel + 1 => do
    let cs := gap cs
    match lexeme cs with
    | (.ending, r) | (.lineBreak, r) => return (.nothing, r)
    | _ =>
      let (first, rest) ← andOr fuel total cs
      let more (first : Command) (r : Bytes) : Fallible (Command × Bytes) := do
        let (later, rest) ← readLine fuel total r
        return (.sequence first later, rest)
      let rest := gap rest
      match lexeme rest with
      | (.ending, r) | (.lineBreak, r) => return (first, r)
      | (.operator ";", r) => more first r
      | (.operator "&", r) => more (.background first) r
      | _ => unexpected total rest none

def readNext (total : Nat) (script : Bytes) : Fallible (Command × Bytes) :=
  readLine (8 * script.length + 64) total script

end ConstraintDesk.Shell
