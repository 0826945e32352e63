import ConstraintDesk.Line.Document
import ConstraintDesk.Proofs.Line.Expressions
import ConstraintDesk.Proofs.Line.Layout
import ConstraintDesk.Proofs.Line.Literals

/-! Written statements and what reading makes of them. Of a valid model every declaration comes back, and
a constraint or a goal comes back exactly if the semicolon behind its expression ends it. -/
namespace ConstraintDesk

def Parameter.asWritten (p : Parameter) : Parameter := { p with value := p.value.asWritten p.domain }

def Bounds.asWritten (domain : Domain) (r : Bounds) : Bounds :=
  ⟨r.min.asWritten domain, r.max.asWritten domain⟩

def Variable.asWritten (v : Variable) : Variable :=
  { v with range := v.range.map (Bounds.asWritten v.domain) }

def writtenExpression (e : String) : String := String.ofList (Text.oneLine e.toList)

def Constraint.asWritten (c : Constraint) : Constraint :=
  { c with expression := writtenExpression c.expression }

def Goal.asWritten (g : Goal) : Goal := { g with expression := g.expression.map writtenExpression }

def Statement.asWritten : Statement → Statement
  | .parameters items => .parameters (items.map Parameter.asWritten)
  | .unknowns items => .unknowns (items.map Variable.asWritten)
  | .constraints items => .constraints (items.map Constraint.asWritten)
  | .goal g => .goal g.asWritten

def Model.asWritten (m : Model) : Model where
  parameters := m.parameters.map Parameter.asWritten
  unknowns := m.unknowns.map Variable.asWritten
  constraints := m.constraints.map Constraint.asWritten
  goal := m.goal.map Goal.asWritten

def Statement.IsClosed : Statement → Prop
  | .parameters _ | .unknowns _ => True
  | .constraints items => ∀ c ∈ items, Line.IsClosed (Text.oneLine c.expression.toList)
  | .goal g => ∀ e, g.expression = some e → Line.IsClosed (Text.oneLine e.toList)

theorem Parameter.lineEq (p : Parameter) :
    p.line = p.domain.name.toList ++ ':' :: ' ' :: (p.id.toList ++ ' ' :: '=' :: ' ' ::
      (p.value.textIn p.domain ++ [';'])) := by
  have colon : ": ".toList = [':', ' '] := by decide
  have equals : " = ".toList = [' ', '=', ' '] := by decide
  unfold line
  simp only [colon, equals, List.append_assoc, List.cons_append, List.nil_append]

theorem Variable.lineOfDomain (id : String) (d : Domain) :
    (Variable.mk id d none).line = "var".toList ++ ' ' :: (d.name.toList ++ ':' :: ' ' :: (id.toList ++ [';'])) := by
  have word : "var ".toList = "var".toList ++ [' '] := by decide
  have colon : ": ".toList = [':', ' '] := by decide
  unfold line
  simp only [word, colon, List.append_assoc, List.cons_append, List.nil_append]

theorem Variable.lineOfRange (id : String) {d : Domain} (numeric : d ≠ .bool) (r : Bounds) :
    (Variable.mk id d (some r)).line = "var".toList ++ ' ' :: (r.min.textIn d ++ ("..".toList ++
      (r.max.textIn d ++ ':' :: ' ' :: (id.toList ++ [';'])))) := by
  have word : "var ".toList = "var".toList ++ [' '] := by decide
  have colon : ": ".toList = [':', ' '] := by decide
  unfold line
  cases d with
  | bool => exact absurd rfl numeric
  | int | float => simp only [word, colon, List.append_assoc, List.cons_append, List.nil_append]

theorem Constraint.lineEq (c : Constraint) :
    c.line = "constraint".toList ++ ' ' :: (c.id.toList ++ ':' :: ' ' ::
      (Text.oneLine c.expression.toList ++ [';'])) := by
  have word : "constraint ".toList = "constraint".toList ++ [' '] := by decide
  have colon : ": ".toList = [':', ' '] := by decide
  unfold line
  simp only [word, colon, List.append_assoc, List.cons_append, List.nil_append]

theorem Goal.lineOfDirected (k : GoalKind) (e : String) :
    (Goal.mk k (some e)).line = "solve".toList ++ ' ' :: (k.name.toList ++ ' ' ::
      (Text.oneLine e.toList ++ [';'])) := by
  have word : "solve ".toList = "solve".toList ++ [' '] := by decide
  unfold line
  simp only [word, List.append_assoc, List.cons_append, List.nil_append]

theorem Goal.lineOfSatisfy :
    (Goal.mk .satisfy none).line = "solve".toList ++ ' ' :: ("satisfy".toList ++ [';']) := by
  decide

namespace Line

theorem pieceOfColon (rest : List Char) : IsPiece .colon [':'] rest :=
  ⟨darkOfPlain (by decide) (by decide) rest, fun offset => tokensOfMark rfl offset⟩

theorem pieceOfSemicolon (rest : List Char) : IsPiece .semicolon [';'] rest :=
  ⟨darkOfPlain (by decide) (by decide) rest, fun offset => tokensOfMark rfl offset⟩

theorem pieceOfEquals (rest : List Char) : IsPiece .equals ['='] rest :=
  ⟨darkOfPlain (by decide) (by decide) rest, fun offset => tokensOfMark rfl offset⟩

theorem pieceOfDots (rest : List Char) : IsPiece .dotDot "..".toList rest :=
  ⟨darkOfPlain (by decide) (by decide) ('.' :: rest), fun offset => tokensCons (w := ['.']) offset rfl⟩

theorem isBreakEquals : IsBreak '=' := ⟨by decide, by decide, by decide, by decide⟩

def domainKind : Domain → TokenKind
  | .int => .int
  | .float => .float
  | .bool => .bool

theorem pieceOfDomain (d : Domain) (rest : List Char) :
    IsPiece (domainKind d) d.name.toList (':' :: rest) := by
  cases d with
  | int => exact Parser.pieceOfWord (c := 'i') (w := "nt".toList) (by decide) (by decide) (p := ':') (by decide) rest
  | float => exact Parser.pieceOfWord (c := 'f') (w := "loat".toList) (by decide) (by decide) (p := ':') (by decide) rest
  | bool => exact Parser.pieceOfWord (c := 'b') (w := "ool".toList) (by decide) (by decide) (p := ':') (by decide) rest

namespace Parser

theorem readsNextDomain {gap w rest : List Char} {kind : TokenKind} (lead : Gap gap)
    (piece : IsPiece kind w rest) :
    Reads nextDomain (gap ++ (w ++ rest)) (domainOf? kind) (gap ++ (w ++ rest)) :=
  readsCurrent lead piece fun _ => .pure _ _

theorem readsDomain {gap rest : List Char} (d : Domain) (lead : Gap gap) :
    Reads domain (gap ++ (d.name.toList ++ ':' :: rest)) d (':' :: rest) := by
  unfold domain
  refine (readsNextDomain lead (pieceOfDomain d rest)).bind ?_
  cases d <;> exact (readsSkip lead (pieceOfDomain _ rest)).bind (.pure _ _)

theorem readsParameter {p : Parameter} (name : IsIdentifier .equals p.id.toList)
    (fits : p.value.fits p.domain = true) (finite : p.value.IsFinite) :
    Reads parameter p.line (.parameters [p.asWritten]) [] := by
  have line : p.line = [] ++ (p.domain.name.toList ++ ':' :: ([' '] ++ (p.id.toList ++ ([' '] ++
      '=' :: ([' '] ++ (p.value.textIn p.domain ++ [';'])))))) := p.lineEq
  rw [line]
  unfold parameter
  refine (readsDomain p.domain .none).bind ?_
  refine (readsExpect .none (pieceOfColon _)).bind ?_
  refine (readsIdentifier rfl name (pieceOfEquals _) isBreakEquals .space .space).bind ?_
  refine (readsExpect .none (pieceOfEquals _)).bind ?_
  refine (readsValue fits finite .space).bind ?_
  exact (readsExpect .none (pieceOfSemicolon _)).bind (.pure _ _)

theorem pieceOfKeyword {c : Char} {w : List Char} {kind : TokenKind} (start : isWordStart c = true)
    (word : w.all isWordChar = true) (kindEq : wordKind (c :: w) = kind) (rest : List Char) :
    IsPiece kind (c :: w) (' ' :: rest) := kindEq ▸ pieceOfWord start word (p := ' ') (by decide) rest

theorem pieceOfVar (rest : List Char) : IsPiece .var "var".toList (' ' :: rest) :=
  pieceOfKeyword (c := 'v') (w := "ar".toList) (by decide) (by decide) rfl rest

theorem pieceOfConstraint (rest : List Char) : IsPiece .constraint "constraint".toList (' ' :: rest) :=
  pieceOfKeyword (c := 'c') (w := "onstraint".toList) (by decide) (by decide) rfl rest

theorem pieceOfSolve (rest : List Char) : IsPiece .solve "solve".toList (' ' :: rest) :=
  pieceOfKeyword (c := 's') (w := "olve".toList) (by decide) (by decide) rfl rest

theorem readsBound {l : Literal} {d : Domain} (fits : l.fits d = true) (numeric : d ≠ .bool)
    (finite : l.IsFinite) {gap rest : List Char} (ends : NumberEnds rest) (lead : Gap gap) :
    Reads Parser.number (gap ++ (l.textIn d ++ rest)) (l.asWritten d) rest := by
  obtain ⟨negative, w, text, numeral⟩ := numeralOfLiteral fits numeric finite
  rw [text, List.append_assoc]
  exact readsNumber numeral ends lead

theorem readsNoDomain {l : Literal} {d : Domain} (fits : l.fits d = true) (numeric : d ≠ .bool)
    (finite : l.IsFinite) {gap rest : List Char} (ends : NumberEnds rest) (lead : Gap gap) :
    Reads nextDomain (gap ++ (l.textIn d ++ rest)) none (gap ++ (l.textIn d ++ rest)) := by
  obtain ⟨negative, w, text, numeral⟩ := numeralOfLiteral fits numeric finite
  obtain ⟨kind, v, behind, same, piece, begins⟩ := pieceAheadOfNumeral numeral ends
  rw [text, List.append_assoc, same]
  have read := readsNextDomain lead piece
  have nothing : domainOf? kind = none := by
    rcases begins with rfl | rfl | rfl <;> rfl
  rwa [nothing] at read

theorem rangeDomainWritten {r : Bounds} {d : Domain} (fits : r.Fits d) :
    rangeDomain (r.min.asWritten d) (r.max.asWritten d) = d := by
  obtain ⟨min, max⟩ := r
  obtain ⟨numeric, low, high⟩ := fits
  cases d with
  | bool => exact absurd rfl numeric
  | int =>
    cases min <;> cases low
    cases max <;> cases high
    rfl
  | float => cases min <;> cases max <;> rfl

theorem readsUnknownId {id : String} (name : IsIdentifier .semicolon id.toList) {f : String → Parser Statement}
    {s : Statement} (h : Reads (f id) [';'] s []) :
    Reads (expect .colon >>= fun _ => identifier .semicolon >>= f) (':' :: ([' '] ++ (id.toList ++ ([] ++ [';']))))
      s [] := by
  refine (readsExpect .none (pieceOfColon _)).bind ?_
  exact (readsIdentifier rfl name (pieceOfSemicolon _) isBreakSemicolon .space .none).bind h

theorem readsDeclaration {v : Variable} (name : IsIdentifier .semicolon v.id.toList)
    (range : ∀ r, v.range = some r → r.Fits v.domain) (finite : v.IsFinite) :
    Reads declaration v.line (.unknowns [v.asWritten]) [] := by
  obtain ⟨id, domain, bounds⟩ := v
  unfold declaration
  cases bounds with
  | none =>
    have line : (Variable.mk id domain none).line = [] ++ ("var".toList ++ ' ' :: (domain.name.toList ++
        ':' :: ([' '] ++ (id.toList ++ ([] ++ [';']))))) := Variable.lineOfDomain id domain
    rw [line]
    refine (readsExpect .none (pieceOfVar _)).bind ?_
    refine (readsNextDomain .space (pieceOfDomain domain _)).bind ?_
    have known : domainOf? (domainKind domain) = some domain := by cases domain <;> rfl
    rw [known]
    refine (readsSkip .space (pieceOfDomain domain _)).bind ((Reads.pure _ _).bind ?_)
    refine readsUnknownId name ?_
    exact (readsExpect .none (pieceOfSemicolon _)).bind (.pure _ _)
  | some r =>
    have fits := range r rfl
    have finite := finite r rfl
    have line : (Variable.mk id domain (some r)).line = [] ++ ("var".toList ++ ' ' :: (r.min.textIn domain ++
        ("..".toList ++ ([] ++ (r.max.textIn domain ++ ':' :: ([' '] ++ (id.toList ++ ([] ++ [';'])))))))) := Variable.lineOfRange id fits.numeric r
    rw [line]
    refine (readsExpect .none (pieceOfVar _)).bind ?_
    refine (readsNoDomain fits.min fits.numeric finite.min (numberEndsDots _) .space).bind ?_
    refine (readsBound fits.min fits.numeric finite.min (numberEndsDots _) .space).bind ?_
    refine (readsExpect .none (pieceOfDots _)).bind ?_
    refine (readsBound fits.max fits.numeric finite.max (numberEndsColon _) .none).bind ((Reads.pure _ _).bind ?_)
    rw [rangeDomainWritten fits]
    refine readsUnknownId name ?_
    exact (readsExpect .none (pieceOfSemicolon _)).bind (.pure _ _)

def withExpression (make : String → Statement) : Parser Statement := do return make (← expression)

theorem constraintWaits {c : Constraint} (name : IsIdentifier .colon c.id.toList) :
    Becomes constraint (withExpression fun e => .constraints [⟨c.id, e⟩]) c.line
      ([' '] ++ (Text.oneLine c.expression.toList ++ [';'])) := by
  have line : c.line = [] ++ ("constraint".toList ++ ' ' :: (c.id.toList ++ ([] ++ ':' :: ([' '] ++
      (Text.oneLine c.expression.toList ++ [';']))))) := c.lineEq
  rw [line]
  unfold constraint
  refine (readsExpect .none (pieceOfConstraint _)).becomes ?_
  refine (readsIdentifier rfl name (pieceOfColon _) isBreakColon .space .none).becomes ?_
  exact (readsExpect .none (pieceOfColon _)).becomes (.refl _ _)

theorem goalWaits {kind : GoalKind} (directed : kind ≠ .satisfy) (e : String) :
    Becomes goal (withExpression fun e => .goal ⟨kind, some e⟩) (Goal.mk kind (some e)).line
      ([' '] ++ (Text.oneLine e.toList ++ [';'])) := by
  have line : (Goal.mk kind (some e)).line = [] ++ ("solve".toList ++ ' ' :: (kind.name.toList ++ ' ' ::
      (Text.oneLine e.toList ++ [';']))) := Goal.lineOfDirected kind e
  rw [line]
  unfold goal
  refine (readsExpect .none (pieceOfSolve _)).becomes ?_
  cases kind with
  | satisfy => exact absurd rfl directed
  | minimize =>
    have word (rest : List Char) : IsPiece .minimize "minimize".toList (' ' :: rest) :=
      pieceOfKeyword (c := 'm') (w := "inimize".toList) (by decide) (by decide) rfl rest
    refine (readsKind .space (word _)).becomes ?_
    exact (readsSkip .space (word _)).becomes (.refl _ _)
  | maximize =>
    have word (rest : List Char) : IsPiece .maximize "maximize".toList (' ' :: rest) :=
      pieceOfKeyword (c := 'm') (w := "aximize".toList) (by decide) (by decide) rfl rest
    refine (readsKind .space (word _)).becomes ?_
    exact (readsSkip .space (word _)).becomes (.refl _ _)

theorem readsSatisfy : Reads goal (Goal.mk .satisfy none).line (.goal ⟨.satisfy, none⟩) [] := by
  have line : (Goal.mk .satisfy none).line = [] ++ ("solve".toList ++ ' ' :: ("satisfy".toList ++ [';'])) :=
    Goal.lineOfSatisfy
  have word : IsPiece .satisfy "satisfy".toList [';'] :=
    pieceOfWord (c := 's') (w := "atisfy".toList) (by decide) (by decide) (p := ';') (by decide) []
  rw [line]
  unfold goal
  refine (readsExpect .none (pieceOfSolve _)).bind ?_
  refine (readsKind .space word).bind ?_
  refine (readsSkip .space word).bind ?_
  exact (readsExpect .none (pieceOfSemicolon _)).bind (.pure _ _)

def ending (s : Statement) : Parser Statement := do
  if (← current).isSome then failHere .trailingText
  return s

theorem endingOk {p : Parser Statement} {ts rest : List Token} {s : Statement} :
    (p >>= ending) ts = .ok (s, rest) ↔ p ts = .ok (s, rest) ∧ significant rest = [] := by
  have step : (p >>= ending) ts = p ts >>= fun (s, rest) => ending s rest := rfl
  rw [step]
  cases p ts with
  | error e => simp [bind, Except.bind]
  | ok read =>
    obtain ⟨t, left⟩ := read
    have last : ending t left = if (significant left).head?.isSome then failHere .trailingText left
        else .ok (t, left) := by
      unfold ending current
      simp only [bind, StateT.bind, Except.bind]
      split <;> rfl
    have here : (Except.ok (t, left) >>= fun (s, rest) => ending s rest) = ending t left := rfl
    rw [here, last]
    cases same : significant left with
    | nil =>
      simp only [List.head?_nil, Option.isSome_none, Bool.false_eq_true, if_false, Except.ok.injEq, Prod.mk.injEq]
      constructor
      · rintro ⟨rfl, rfl⟩
        exact ⟨⟨rfl, rfl⟩, same⟩
      · exact fun found => found.1
    | cons a r =>
      simp only [List.head?_cons, Option.isSome_some, if_true, failHere, reduceCtorEq, Except.ok.injEq,
        Prod.mk.injEq, false_iff, not_and]
      rintro ⟨rfl, rfl⟩ empty
      rw [empty] at same
      cases same

def called : TokenKind → Option (Parser Statement)
  | .int | .float | .bool => some parameter
  | .var => some declaration
  | .constraint => some constraint
  | .solve => some goal
  | _ => none

theorem statementCalls {kind : TokenKind} {w rest : List Char} {p : Parser Statement} (piece : IsPiece kind w rest)
    (called : called kind = some p) : Becomes statement (p >>= ending) (w ++ rest) (w ++ rest) := by
  unfold statement
  refine (readsKind .none piece).becomes ?_
  cases kind <;> cases called <;> exact .refl _ _

end Parser

theorem parseOk {cs : List Char} {s : Statement} :
    parse cs = .ok s ↔ ∃ rest, Parser.statement (tokens cs) = .ok (s, rest) := by
  unfold parse
  cases Parser.statement (tokens cs) with
  | error e => simp
  | ok read => simp [Prod.ext_iff]

variable {kind : TokenKind} {w rest : List Char} {p : Parser Statement} (piece : IsPiece kind w rest)
  (handled : Parser.called kind = some p)

include piece handled

theorem parseOfReads {s : Statement} (reads : Reads p (w ++ rest) s []) : parse (w ++ rest) = .ok s := by
  obtain ⟨start, same⟩ := Parser.statementCalls piece handled 0
  obtain ⟨behind, read⟩ := reads start
  refine parseOk.mpr ⟨tokensFrom behind [], ?_⟩
  rw [tokens, same, Parser.endingOk, read, tokensNil]
  exact ⟨rfl, rfl⟩

theorem parseOfFails (fails : Fails p (w ++ rest)) (t : Statement) : parse (w ++ rest) ≠ .ok t := by
  intro read
  obtain ⟨left, read⟩ := parseOk.mp read
  obtain ⟨start, same⟩ := Parser.statementCalls piece handled 0
  obtain ⟨e, failed⟩ := fails start
  rw [tokens, same, Parser.endingOk, failed] at read
  cases read.1

variable {make : String → Statement} {e : List Char} (laid : IsLaidOut e)
  (waits : Becomes p (Parser.withExpression make) (w ++ rest) ([' '] ++ (e ++ [';'])))

include laid waits

theorem parseOfExpression (begins : e.head? ≠ some ';') (strings : Quoting.outside.after e = .outside) :
    parse (w ++ rest) = .ok (make (String.ofList e)) := by
  refine parseOfReads piece handled (waits.reads ?_)
  exact (Parser.readsExpression laid begins strings .space).bind (.pure _ _)

theorem parseOfWaits (uncommented : '%' ∉ e) {t : Statement} :
    parse (w ++ rest) = .ok t ↔ IsClosed e ∧ t = make (String.ofList e) := by
  have back (closed : IsClosed e) : parse (w ++ rest) = .ok (make (String.ofList e)) :=
    parseOfExpression piece handled laid waits closed.begins ((closedIff uncommented false).mp closed.strings)
  constructor
  · intro read
    -- Nothing is left of a line that was read, so the last semicolon is the one at its end.
    have closed : IsClosed e := by
      obtain ⟨left, read⟩ := parseOk.mp read
      obtain ⟨start, same⟩ := Parser.statementCalls piece handled 0
      obtain ⟨behind, waiting⟩ := waits start
      rw [tokens, same, Parser.endingOk, waiting] at read
      obtain ⟨read, done⟩ := read
      have step : Parser.withExpression make (tokensFrom behind ([' '] ++ (e ++ [';'])))
          = Parser.expression (tokensFrom behind ([' '] ++ (e ++ [';']))) >>= fun read =>
            .ok (make read.1, read.2) := rfl
      rw [step] at read
      obtain ⟨⟨s, behind⟩, found, last⟩ := okOfBind read
      cases last
      exact Parser.closedOfExpression laid uncommented .space found done
    rw [back closed] at read
    exact ⟨closed, (Except.ok.inj read).symm⟩
  · rintro ⟨closed, rfl⟩
    exact back closed

end Line
end ConstraintDesk
