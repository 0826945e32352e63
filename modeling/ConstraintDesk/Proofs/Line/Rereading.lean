import ConstraintDesk.Proofs.Line.Parsed

/-! What was read and written, read again. Only two things are refused: the word that infinity is
written as, where a number is expected, and a semicolon in the place of an expression. -/
namespace ConstraintDesk

structure IsStated (expression : String) : Prop where
  notEmpty : expression.toList ≠ []
  begins : expression.toList.head? ≠ some ';'

def Statement.IsStated : Statement → Prop
  | .parameters _ | .unknowns _ => True
  | .constraints items => ∀ c ∈ items, ConstraintDesk.IsStated c.expression
  | .goal g => ∀ e, g.expression = some e → ConstraintDesk.IsStated e

namespace Line

theorem textOfInfinite {l : Literal} (infinite : ¬ l.IsFinite) (d : Domain) :
    ∃ negative, l.textIn d = sign negative ++ "inf".toList := by
  cases l with
  | bool b => exact absurd trivial infinite
  | int i => exact absurd trivial infinite
  | float x =>
    have infinite : ¬ x.code < Binary64.infinityCode := fun finite => infinite (decide_eq_true finite)
    have code : x.code = Binary64.infinityCode := Nat.le_antisymm x.codeLe (Nat.le_of_not_lt infinite)
    refine ⟨x.negative, (writeSign Literal.spelling x).trans ?_⟩
    rw [code]
    rfl

theorem pieceAheadOfInfinite (negative : Bool) {p : Char} (stop : isWordChar p = false) (rest : List Char) :
    ∃ kind w behind, sign negative ++ ("inf".toList ++ p :: rest) = w ++ behind ∧ IsPiece kind w behind
      ∧ (kind = .minus ∨ kind = .identifier) := by
  cases negative with
  | true => exact ⟨.minus, ['-'], _, rfl, pieceOfMinus, .inl rfl⟩
  | false =>
    have piece := Parser.pieceOfWord (c := 'i') (w := "nf".toList) (by decide) (by decide) stop rest
    exact ⟨_, "inf".toList, p :: rest, rfl, piece, .inr rfl⟩

namespace Parser

variable {gap rest : List Char} {p : Char} (lead : Gap gap) (stop : isWordChar p = false)

include lead stop

theorem failsNumber (negative : Bool) : Fails Parser.number (gap ++ (sign negative ++ ("inf".toList ++ p :: rest))) := by
  have word : IsPiece .identifier "inf".toList (p :: rest) :=
    pieceOfWord (c := 'i') (w := "nf".toList) (by decide) (by decide) stop rest
  have unsigned (negative : Bool) {gap : List Char} (lead : Gap gap) :
      Fails (unsigned negative) (gap ++ ("inf".toList ++ p :: rest)) :=
    failsCurrent lead word fun start => failsHere _ _
  rw [numberEq]
  cases negative with
  | false =>
    refine failsCurrent (w := "inf".toList) lead word fun start => ?_
    have unmarked : decide (TokenKind.identifier = .minus) = false := rfl
    simp only [Option.any_some, unmarked, Bool.false_eq_true, if_false]
    exact unsigned false lead
  | true =>
    refine failsCurrent lead pieceOfMinus fun start => ?_
    exact (readsSkip lead pieceOfMinus).fails (unsigned true .none)

theorem failsValue (d : Domain) (negative : Bool) :
    Fails (value d) (gap ++ (sign negative ++ ("inf".toList ++ p :: rest))) := by
  have number : Fails Parser.number (gap ++ (sign negative ++ ("inf".toList ++ p :: rest))) :=
    failsNumber lead stop negative
  have literal : Fails literal (gap ++ (sign negative ++ ("inf".toList ++ p :: rest))) := by
    obtain ⟨kind, w, behind, same, piece, begins⟩ := pieceAheadOfInfinite negative stop rest
    rw [same] at number ⊢
    refine (readsKind lead piece).fails ?_
    rcases begins with rfl | rfl
    · exact number
    · exact number
  unfold value
  exact failsGet fun start => literal.bind _

theorem failsNextDomain (negative : Bool) {α : Type} {f : Option Domain → Parser α}
    (h : Fails (f none) (gap ++ (sign negative ++ ("inf".toList ++ p :: rest)))) :
    Fails (nextDomain >>= f) (gap ++ (sign negative ++ ("inf".toList ++ p :: rest))) := by
  obtain ⟨kind, w, behind, same, piece, begins⟩ := pieceAheadOfInfinite negative stop rest
  rw [same] at h ⊢
  refine (readsNextDomain lead piece).fails ?_
  rcases begins with rfl | rfl
  · exact h
  · exact h

omit lead stop

theorem failsParameter {p : Parameter} (name : IsIdentifier .equals p.id.toList) (infinite : ¬ p.value.IsFinite) :
    Fails parameter p.line := by
  obtain ⟨negative, text⟩ := textOfInfinite infinite p.domain
  have line : p.line = [] ++ (p.domain.name.toList ++ ':' :: ([' '] ++ (p.id.toList ++ ([' '] ++
      '=' :: ([' '] ++ (sign negative ++ ("inf".toList ++ [';']))))))) := by
    rw [p.lineEq, text, List.append_assoc]
    rfl
  rw [line]
  unfold parameter
  refine (readsDomain p.domain .none).fails ?_
  refine (readsExpect .none (pieceOfColon _)).fails ?_
  refine (readsIdentifier rfl name (pieceOfEquals _) isBreakEquals .space .space).fails ?_
  refine (readsExpect .none (pieceOfEquals _)).fails ?_
  exact (failsValue .space (by decide) p.domain negative).bind _

theorem failsDeclaration (id : String) {d : Domain} {r : Bounds} (fits : r.Fits d) (infinite : ¬ r.IsFinite) :
    Fails declaration (Variable.mk id d (some r)).line := by
  have line : (Variable.mk id d (some r)).line = [] ++ ("var".toList ++ ' ' :: (r.min.textIn d ++
      ("..".toList ++ ([] ++ (r.max.textIn d ++ ':' :: ([' '] ++ (id.toList ++ [';']))))))) :=
    Variable.lineOfRange id fits.numeric r
  rw [line]
  unfold declaration
  refine (readsExpect .none (pieceOfVar _)).fails ?_
  by_cases least : r.min.IsFinite
  · have greatest : ¬ r.max.IsFinite := fun greatest => infinite ⟨least, greatest⟩
    obtain ⟨negative, text⟩ := textOfInfinite greatest d
    rw [text, List.append_assoc (sign negative)]
    refine (readsNoDomain fits.min fits.numeric least (numberEndsDots _) .space).fails ?_
    refine (readsBound fits.min fits.numeric least (numberEndsDots _) .space).fails ?_
    refine (readsExpect .none (pieceOfDots _)).fails ?_
    exact (failsNumber .none (by decide) negative).bind _
  · obtain ⟨negative, text⟩ := textOfInfinite least d
    rw [text, List.append_assoc (sign negative)]
    have dot : isWordChar '.' = false := by decide
    exact failsNextDomain .space dot negative ((failsNumber .space dot negative).bind _)

end Parser

theorem parseOfSettled {kind : TokenKind} {w rest : List Char} {p : Parser Statement} (piece : IsPiece kind w rest)
    (handled : Parser.called kind = some p) {make : String → Statement} {e : String} (settled : IsSettled e.toList)
    (waits : Becomes p (Parser.withExpression make) (w ++ rest) ([' '] ++ (Text.oneLine e.toList ++ [';'])))
    {t : Statement} : parse (w ++ rest) = .ok t ↔ ConstraintDesk.IsStated e ∧ t = make (writtenExpression e) := by
  have dark (c : Char) (head : e.toList.head? = some c) : Text.isBlank c = false :=
    Text.trimHead (settled.trimmed.symm ▸ head)
  have first := Text.oneLineFirst dark
  by_cases stated : ConstraintDesk.IsStated e
  · have laid := laidOutOfOneLine (settled.trimmed.symm ▸ stated.notEmpty)
    have reads := parseOfExpression piece handled laid waits (first ▸ stated.begins)
      ((Quoting.afterOneLine e.toList).mpr settled.strings)
    rw [reads, Except.ok.injEq, eq_comm]
    simp [stated, writtenExpression]
  · obtain ⟨r, missing⟩ : ∃ r, Text.oneLine e.toList ++ [';'] = ';' :: r := by
      by_cases empty : e.toList = []
      · exact ⟨[], by rw [empty]; rfl⟩
      · have begins : e.toList.head? = some ';' := by
          by_contra other
          exact stated ⟨empty, other⟩
        obtain ⟨r, same⟩ := List.head?_eq_some_iff.mp (first.trans begins)
        exact ⟨r ++ [';'], by rw [same]; rfl⟩
    rw [missing] at waits
    have fails : Fails (Parser.withExpression make) ([' '] ++ ';' :: r) :=
      Fails.bind (fun offset => ⟨_, Parser.expressionMissing .space offset r⟩) _
    exact iff_of_false (parseOfFails piece handled (waits.fails fails) t) fun both => stated both.1

theorem parseRead {s : Statement} (read : s.IsRead) {t : Statement} :
    parse s.text = .ok t ↔ (s.IsFinite ∧ s.IsStated) ∧ t = s.asWritten := by
  have always {s t : Statement} {cs : List Char} (reads : parse cs = .ok s) : parse cs = .ok t ↔ t = s := by
    rw [reads, Except.ok.injEq, eq_comm]
  cases read with
  | @parameter p read =>
    rw [Statement.textOfParameter]
    obtain ⟨rest, line⟩ := parameterBegins p
    have called : Parser.called (domainKind p.domain) = some Parser.parameter := by cases p.domain <;> rfl
    by_cases finite : p.value.IsFinite
    · have reads := Parser.readsParameter read.name read.fits finite
      rw [line] at reads ⊢
      rw [always (parseOfReads (pieceOfDomain _ _) called reads)]
      simp [Statement.IsFinite, Statement.IsStated, finite, Statement.asWritten]
    · have fails := Parser.failsParameter read.name finite
      rw [line] at fails ⊢
      refine iff_of_false (parseOfFails (pieceOfDomain _ _) called fails t) ?_
      simp [Statement.IsFinite, finite]
  | @unknown v read =>
    rw [Statement.textOfUnknown]
    obtain ⟨rest, line⟩ := unknownBegins v
    by_cases finite : v.IsFinite
    · have reads := Parser.readsDeclaration read.name read.range finite
      rw [line] at reads ⊢
      rw [always (parseOfReads (Parser.pieceOfVar rest) rfl reads)]
      simp [Statement.IsFinite, Statement.IsStated, finite, Statement.asWritten]
    · obtain ⟨r, range, infinite⟩ : ∃ r, v.range = some r ∧ ¬ r.IsFinite := by
        simpa [Variable.IsFinite] using finite
      have fails := Parser.failsDeclaration v.id (read.range r range) infinite
      rw [← range] at fails
      rw [line] at fails ⊢
      refine iff_of_false (parseOfFails (Parser.pieceOfVar rest) rfl fails t) ?_
      simp [Statement.IsFinite, finite]
  | @constraint c read =>
    rw [Statement.textOfConstraint]
    obtain ⟨rest, line⟩ := constraintBegins c
    have waits := Parser.constraintWaits read.name
    rw [line] at waits ⊢
    rw [parseOfSettled (Parser.pieceOfConstraint rest) rfl read.settled waits]
    simp [Statement.IsFinite, Statement.IsStated, Statement.asWritten, Constraint.asWritten, writtenExpression]
  | @goal g read =>
    rw [Statement.textOfGoal]
    obtain ⟨rest, line⟩ := goalBegins g
    cases read with
    | satisfy =>
      have reads := Parser.readsSatisfy
      rw [line] at reads ⊢
      rw [always (parseOfReads (Parser.pieceOfSolve rest) rfl reads)]
      simp [Statement.IsFinite, Statement.IsStated, Statement.asWritten, Goal.asWritten]
    | @directed kind e directed settled =>
      have waits := Parser.goalWaits directed e
      rw [line] at waits ⊢
      rw [parseOfSettled (Parser.pieceOfSolve rest) rfl settled waits]
      simp [Statement.IsFinite, Statement.IsStated, Statement.asWritten, Goal.asWritten, writtenExpression]

end Line

theorem Statement.IsRead.isLine {s : Statement} (read : s.IsRead) : Text.IsLine s.text := by
  cases read with
  | @parameter p read => exact Statement.textOfParameter p ▸ Parameter.isLine read.unbroken
  | @unknown v read => exact Statement.textOfUnknown v ▸ Variable.isLine read.unbroken
  | @constraint c read => exact Statement.textOfConstraint c ▸ Constraint.isLine read.unbroken
  | @goal g read => exact Statement.textOfGoal g ▸ g.isLine

namespace Model

structure IsStated (m : Model) : Prop where
  constraints : ∀ c ∈ m.constraints, ConstraintDesk.IsStated c.expression
  goal : ∀ g, m.goal = some g → ∀ e, g.expression = some e → ConstraintDesk.IsStated e

theorem eachStatement {m : Model} : (∀ s ∈ m.statements, s.IsFinite ∧ s.IsStated) ↔ m.IsFinite ∧ m.IsStated := by
  constructor
  · intro each
    have among {s : Statement} (member : (∃ p ∈ m.parameters, s = .parameters [p]) ∨ (∃ v ∈ m.unknowns, s = .unknowns [v])
      ∨ (∃ c ∈ m.constraints, s = .constraints [c]) ∨ ∃ g, m.goal = some g ∧ s = .goal g) :=
      each s (memberOfStatements.mpr member)
    refine ⟨⟨fun p member => ?_, fun v member => ?_⟩, ⟨fun c member => ?_, fun g found => ?_⟩⟩
    · exact (among (.inl ⟨p, member, rfl⟩)).1 p (by simp)
    · exact (among (.inr (.inl ⟨v, member, rfl⟩))).1 v (by simp)
    · exact (among (.inr (.inr (.inl ⟨c, member, rfl⟩)))).2 c (by simp)
    · exact (among (.inr (.inr (.inr ⟨g, found, rfl⟩)))).2
  · rintro ⟨finite, stated⟩ s member
    refine ⟨finite.statement member, ?_⟩
    rcases memberOfStatements.mp member with ⟨p, -, rfl⟩ | ⟨v, -, rfl⟩ | ⟨c, inside, rfl⟩ | ⟨g, found, rfl⟩
    · trivial
    · trivial
    · intro d one
      exact List.mem_singleton.mp one ▸ stated.constraints c inside
    · exact stated.goal g found

theorem readOfWritten {m : Model} (read : m.IsRead) (n : Model) :
    Line.parseDocument m.document = .ok n ↔ (m.IsFinite ∧ m.IsStated) ∧ n = m.asWritten := by
  rw [← eachStatement]
  exact Line.readWritten (fun s member => (read.statement member).isLine)
    (fun s member t => Line.parseRead (read.statement member)) n

end Model

end ConstraintDesk
