import ConstraintDesk.Proofs.Line.Written

/-! Documents that are written and read. The line of a valid statement is read as the statement was
written, and a document as the model of what its lines are read as. -/
namespace ConstraintDesk

def Statement.IsFinite : Statement → Prop
  | .parameters items => ∀ p ∈ items, p.value.IsFinite
  | .unknowns items => ∀ v ∈ items, v.IsFinite
  | .constraints _ | .goal _ => True

theorem Model.IsFinite.statement {m : Model} (finite : m.IsFinite) {s : Statement} (member : s ∈ m.statements) :
    s.IsFinite := by
  rcases memberOfStatements.mp member with ⟨p, inside, rfl⟩ | ⟨v, inside, rfl⟩ | ⟨c, -, rfl⟩ | ⟨g, -, rfl⟩
  · intro q one
    exact List.mem_singleton.mp one ▸ finite.parameters p inside
  · intro w one
    exact List.mem_singleton.mp one ▸ finite.unknowns v inside
  · trivial
  · trivial

namespace Line

theorem parameterBegins (p : Parameter) : ∃ rest, p.line = p.domain.name.toList ++ ':' :: rest := ⟨_, p.lineEq⟩

theorem unknownBegins (v : Variable) : ∃ rest, v.line = "var".toList ++ ' ' :: rest := by
  obtain ⟨rest, line⟩ : "var ".toList <+: v.line := by
    unfold Variable.line
    simp only [List.append_assoc, List.prefix_append]
  exact ⟨rest, line.symm⟩

theorem constraintBegins (c : Constraint) : ∃ rest, c.line = "constraint".toList ++ ' ' :: rest := ⟨_, c.lineEq⟩

theorem goalBegins (g : Goal) : ∃ rest, g.line = "solve".toList ++ ' ' :: rest := by
  obtain ⟨rest, line⟩ : "solve ".toList <+: g.line := by
    unfold Goal.line
    simp only [List.append_assoc, List.prefix_append]
  exact ⟨rest, line.symm⟩

theorem parseWritten {s : Statement} (faithful : s.Faithful) (finite : s.IsFinite) {t : Statement} :
    parse s.text = .ok t ↔ s.IsClosed ∧ t = s.asWritten := by
  have always {s t : Statement} {cs : List Char} (reads : parse cs = .ok s) : parse cs = .ok t ↔ True ∧ t = s := by
    rw [reads, Except.ok.injEq, true_and, eq_comm]
  cases faithful with
  | @parameter p valid =>
    rw [Statement.textOfParameter]
    obtain ⟨rest, line⟩ := parameterBegins p
    have reads := Parser.readsParameter (Parser.identifierOfName (by simp) valid.name) valid.fits (finite p (by simp))
    rw [line] at reads ⊢
    exact always (parseOfReads (pieceOfDomain _ _) (by cases p.domain <;> rfl) reads)
  | @unknown v valid =>
    rw [Statement.textOfUnknown]
    obtain ⟨rest, line⟩ := unknownBegins v
    have reads := Parser.readsDeclaration (Parser.identifierOfName (by simp) valid.name) valid.range (finite v (by simp))
    rw [line] at reads ⊢
    exact always (parseOfReads (Parser.pieceOfVar rest) rfl reads)
  | @constraint c valid =>
    rw [Statement.textOfConstraint]
    obtain ⟨rest, line⟩ := constraintBegins c
    have waits := Parser.constraintWaits (Parser.identifierOfName (by simp) valid.name)
    rw [line] at waits ⊢
    rw [parseOfWaits (Parser.pieceOfConstraint rest) rfl (laidOutOfOneLine valid.expression.dark) waits
      (uncommentedOneLine valid.expression)]
    simp [Statement.IsClosed, Statement.asWritten, Constraint.asWritten, writtenExpression]
  | @goal g valid =>
    rw [Statement.textOfGoal]
    obtain ⟨rest, line⟩ := goalBegins g
    cases valid with
    | satisfy =>
      have reads := Parser.readsSatisfy
      rw [line] at reads ⊢
      refine (always (parseOfReads (Parser.pieceOfSolve rest) rfl reads)).trans ?_
      simp [Statement.IsClosed, Statement.asWritten, Goal.asWritten]
    | @directed kind e directed valid =>
      have waits := Parser.goalWaits directed e
      rw [line] at waits ⊢
      rw [parseOfWaits (Parser.pieceOfSolve rest) rfl (laidOutOfOneLine valid.dark) waits (uncommentedOneLine valid)]
      simp [Statement.IsClosed, Statement.asWritten, Goal.asWritten, writtenExpression]

theorem startOfWritten {m : Model} {s : Statement} (member : s ∈ m.statements) :
    ∃ c r, s.text = c :: r ∧ Text.isBlank c = false ∧ c ≠ '%' := by
  rcases Model.memberOfStatements.mp member with ⟨p, -, rfl⟩ | ⟨v, -, rfl⟩ | ⟨c, -, rfl⟩ | ⟨g, -, rfl⟩
  · obtain ⟨rest, line⟩ := parameterBegins p
    rw [Statement.textOfParameter, line]
    cases p.domain <;> exact ⟨_, _, rfl, by decide, by decide⟩
  · obtain ⟨rest, line⟩ := unknownBegins v
    rw [Statement.textOfUnknown, line]
    exact ⟨_, _, rfl, by decide, by decide⟩
  · obtain ⟨rest, line⟩ := constraintBegins c
    rw [Statement.textOfConstraint, line]
    exact ⟨_, _, rfl, by decide, by decide⟩
  · obtain ⟨rest, line⟩ := goalBegins g
    rw [Statement.textOfGoal, line]
    exact ⟨_, _, rfl, by decide, by decide⟩

theorem writtenIsNotBlank {m : Model} {s : Statement} (member : s ∈ m.statements) : isBlankLine s.text = false := by
  obtain ⟨c, r, text, dark, comment⟩ := startOfWritten member
  rw [text, isBlankLine, Text.trimStartOfDark dark]
  simpa using comment

theorem addWritten {condition : Statement → Prop} {statements : List Statement}
    (dark : ∀ s ∈ statements, isBlankLine s.text = false)
    (each : ∀ s ∈ statements, ∀ t, parse s.text = .ok t ↔ condition s ∧ t = s.asWritten) (m n : Model) (index : Nat) :
    addLines m index (statements.map Statement.text ++ [[]]) = .ok n
      ↔ (∀ s ∈ statements, condition s) ∧ n = (statements.map Statement.asWritten).foldl Model.push m := by
  induction statements generalizing m index with
  | nil =>
    have last : addLines m index [[]] = .ok m := rfl
    rw [List.map_nil, List.nil_append, last, Except.ok.injEq]
    simp [eq_comm]
  | cons s rest ih =>
    have later (m : Model) := ih (fun t member => dark t (by simp [member]))
      (fun t member => each t (by simp [member])) m (index + 1)
    have here {t : Statement} := each s (by simp) t
    rw [List.map_cons, List.cons_append, addLines, addLine, dark s (by simp)]
    simp only [Bool.false_eq_true, if_false, List.mem_cons, forall_eq_or_imp, List.map_cons, List.foldl_cons]
    -- The first line that cannot be read ends the reading, and its statement does not meet the condition.
    cases read : parse s.text with
    | error e =>
      have unmet : ¬ condition s := fun met => by simpa [read] using here.mpr ⟨met, rfl⟩
      simp [unmet]
    | ok t =>
      obtain ⟨met, rfl⟩ := here.mp read
      simp only [later, met, true_and]

end Line

namespace Model

theorem pushAll (m n : Model) : m.statements.foldl push n
    = ⟨n.parameters ++ m.parameters, n.unknowns ++ m.unknowns, n.constraints ++ m.constraints, m.goal.or n.goal⟩ := by
  have parameters (items : List Parameter) (n : Model) :
      (items.map fun p => Statement.parameters [p]).foldl push n = { n with parameters := n.parameters ++ items } := by
    induction items generalizing n with
    | nil => simp
    | cons p items ih => simp [ih, push]
  have unknowns (items : List Variable) (n : Model) :
      (items.map fun v => Statement.unknowns [v]).foldl push n = { n with unknowns := n.unknowns ++ items } := by
    induction items generalizing n with
    | nil => simp
    | cons v items ih => simp [ih, push]
  have constraints (items : List Constraint) (n : Model) :
      (items.map fun c => Statement.constraints [c]).foldl push n = { n with constraints := n.constraints ++ items } := by
    induction items generalizing n with
    | nil => simp
    | cons c items ih => simp [ih, push]
  rw [statements, List.foldl_append, List.foldl_append, List.foldl_append, parameters, unknowns, constraints]
  cases m.goal <;> simp [push]

theorem pushStatements (m : Model) : m.statements.foldl push empty = m := by
  rw [pushAll]
  simp [empty]

theorem statementsAsWritten (m : Model) : m.statements.map Statement.asWritten = m.asWritten.statements := by
  simp [statements, asWritten, Function.comp_def, Statement.asWritten, Option.toList_map]

end Model

namespace Line

theorem readWritten {condition : Statement → Prop} {m : Model} (lines : ∀ s ∈ m.statements, Text.IsLine s.text)
    (each : ∀ s ∈ m.statements, ∀ t, parse s.text = .ok t ↔ condition s ∧ t = s.asWritten) (n : Model) :
    parseDocument m.document = .ok n ↔ (∀ s ∈ m.statements, condition s) ∧ n = m.asWritten := by
  rw [parseDocument, Model.linesOfDocument lines, addWritten (fun s member => writtenIsNotBlank member) each,
    Model.statementsAsWritten, Model.pushStatements]

theorem readDocument {m : Model} (accepted : m.Accepted) (n : Model) :
    parseDocument m.document = .ok n ↔ (∀ s ∈ m.statements, s.IsClosed) ∧ n = m.asWritten :=
  readWritten (fun _ member => (accepted.valid.faithful member).isLine)
    (fun _ member _ => parseWritten (accepted.valid.faithful member) (accepted.finite.statement member)) n

end Line

theorem Statement.idAsWritten {m : Model} {s : Statement} (member : s ∈ m.statements) :
    ∃ id, s.id? = some id ∧ s.asWritten.id? = some id := by
  rcases Model.memberOfStatements.mp member with ⟨p, -, rfl⟩ | ⟨v, -, rfl⟩ | ⟨c, -, rfl⟩ | ⟨g, -, rfl⟩
  all_goals exact ⟨_, rfl, rfl⟩

theorem Statement.kindAsWritten (s : Statement) : s.asWritten.kind = s.kind := by
  cases s <;> rfl

theorem writtenFormsReadBack {v : Json} {m : Model} (accepted : Model.ofJson v = .ok m) :
    (∀ s ∈ m.statements, s.asWritten.kind = s.kind ∧ s.asWritten.id? = s.id?
        ∧ ∀ t, Line.parse s.text = .ok t ↔ s.IsClosed ∧ t = s.asWritten)
      ∧ ∀ n, Line.parseDocument m.document = .ok n ↔ (∀ s ∈ m.statements, s.IsClosed) ∧ n = m.asWritten := by
  have accepted := Model.acceptedOfJson accepted
  refine ⟨fun s member => ⟨s.kindAsWritten, ?_, fun t => ?_⟩, fun n => Line.readDocument accepted n⟩
  · obtain ⟨id, before, after⟩ := Statement.idAsWritten member
    rw [before, after]
  · exact Line.parseWritten (accepted.valid.faithful member) (accepted.finite.statement member)

theorem writtenRateReadsBack :
    Line.parse (Statement.parameters [⟨"rate", .float, .int 2⟩]).text
      = .ok (.parameters [⟨"rate", .float, .float (Binary64.ofInt 2)⟩]) := by
  have accepted : Model.ofJson (.object [("parameters",
      .array [.object [("id", .string "rate"), ("type", .string "float"), ("value", .ofInt 2)]])])
      = .ok ⟨[⟨"rate", .float, .int 2⟩], [], [], none⟩ := okOfToOption (by decide +kernel)
  exact (((writtenFormsReadBack accepted).1 _ (by simp [Model.statements])).2.2 _).mpr ⟨trivial, rfl⟩

theorem openStringIsNotReadBack :
    Model.ofJson (.object [("constraints",
        .array [.object [("id", .string "c1"), ("expression", .string "x = \"a")]])])
      = .ok ⟨[], [], [⟨"c1", "x = \"a"⟩], none⟩
      ∧ ∀ t, Line.parse (Statement.constraints [⟨"c1", "x = \"a"⟩]).text ≠ .ok t := by
  refine ⟨okOfToOption (by decide +kernel), fun t read => ?_⟩
  have failed : (Line.parse (Statement.constraints [⟨"c1", "x = \"a"⟩]).text).toOption = none := by
    decide +kernel
  rw [read] at failed
  cases failed

end ConstraintDesk
