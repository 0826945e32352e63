import ConstraintDesk.Proofs.Line.Grammar

/-! The statements that the grammar derives. A text is read as a statement exactly if the grammar derives
the statement from the tokens of the text that mean something. -/
namespace ConstraintDesk

namespace Line

inductive IsParameter : List Token → Parameter → Prop
  | declared {type colon equals semicolon : Token} {name literal : List Token} {d : Domain} {id : String} {l : Literal}
      (domain : type.kind = domainKind d) (behindType : colon.kind = .colon) (named : IsId .equals name id)
      (behindName : equals.kind = .equals) (value : IsLiteral literal l) (fits : l.fits d = true)
      (ends : semicolon.kind = .semicolon) :
      IsParameter (type :: colon :: (name ++ equals :: (literal ++ [semicolon]))) ⟨id, d, l.asWritten d⟩

inductive IsUnknown : List Token → Variable → Prop
  | declared {var colon semicolon : Token} {type name : List Token} {d : Domain} {range : Option Bounds} {id : String}
      (word : var.kind = .var) (typed : IsType type d range) (behindType : colon.kind = .colon)
      (named : IsId .semicolon name id) (ends : semicolon.kind = .semicolon) :
      IsUnknown (var :: (type ++ colon :: (name ++ [semicolon]))) ⟨id, d, range⟩

inductive IsConstraint (cs : List Char) : List Token → Constraint → Prop
  | stated {constraint colon : Token} {name body : List Token} {id e : String} (word : constraint.kind = .constraint)
      (named : IsId .colon name id) (behindName : colon.kind = .colon) (states : IsExpression cs body e) :
      IsConstraint cs (constraint :: (name ++ colon :: body)) ⟨id, e⟩

inductive IsGoal (cs : List Char) : List Token → Goal → Prop
  | satisfy {solve satisfy semicolon : Token} (word : solve.kind = .solve) (directive : satisfy.kind = .satisfy)
      (ends : semicolon.kind = .semicolon) : IsGoal cs [solve, satisfy, semicolon] ⟨.satisfy, none⟩
  | minimize {solve minimize : Token} {body : List Token} {e : String} (word : solve.kind = .solve)
      (directive : minimize.kind = .minimize) (states : IsExpression cs body e) :
      IsGoal cs (solve :: minimize :: body) ⟨.minimize, some e⟩
  | maximize {solve maximize : Token} {body : List Token} {e : String} (word : solve.kind = .solve)
      (directive : maximize.kind = .maximize) (states : IsExpression cs body e) :
      IsGoal cs (solve :: maximize :: body) ⟨.maximize, some e⟩

inductive IsStatement (cs : List Char) (body : List Token) : Statement → Prop
  | parameter {p : Parameter} (h : IsParameter body p) : IsStatement cs body (.parameters [p])
  | unknown {v : Variable} (h : IsUnknown body v) : IsStatement cs body (.unknowns [v])
  | constraint {c : Constraint} (h : IsConstraint cs body c) : IsStatement cs body (.constraints [c])
  | goal {g : Goal} (h : IsGoal cs body g) : IsStatement cs body (.goal g)

theorem IsParameter.begins {body : List Token} {p : Parameter} (h : IsParameter body p) :
    body.head?.map (·.kind) = some (domainKind p.domain) := by
  cases h with
  | declared domain => exact congrArg some domain

theorem IsUnknown.begins {body : List Token} {v : Variable} (h : IsUnknown body v) :
    body.head?.map (·.kind) = some .var := by
  cases h with
  | declared word => exact congrArg some word

theorem IsConstraint.begins {cs : List Char} {body : List Token} {c : Constraint} (h : IsConstraint cs body c) :
    body.head?.map (·.kind) = some .constraint := by
  cases h with
  | stated word => exact congrArg some word

theorem IsGoal.begins {cs : List Char} {body : List Token} {g : Goal} (h : IsGoal cs body g) :
    body.head?.map (·.kind) = some .solve := by
  cases h with
  | satisfy word | minimize word | maximize word => exact congrArg some word

namespace Parser

variable {cs : List Char}

theorem meansParameter : Means cs parameter fun ts s behind =>
    ∃ body p, IsParameter body p ∧ s = .parameters [p] ∧ ts = body ++ behind := by
  unfold parameter
  refine .congr (meansDomain.bind fun d => (meansExpect .colon).bind fun _ => (meansIdentifier rfl).bind fun id =>
    (meansExpect .equals).bind fun _ => (meansValue d).bind fun v => (meansExpect .semicolon).bind fun _ => .pure _) ?_
  intro ts _ s behind
  constructor
  · rintro ⟨d, _, ⟨type, domain, rfl⟩, _, _, ⟨colon, behindType, rfl⟩, id, _, ⟨name, named, -, rfl⟩, _, _,
      ⟨equals, behindName, rfl⟩, v, _, ⟨literal, l, value, fits, rfl, rfl⟩, _, _, ⟨semicolon, ends, rfl⟩, rfl, rfl⟩
    exact ⟨_, _, .declared domain behindType named behindName value fits ends, rfl, by simp⟩
  · rintro ⟨_, _, @⟨type, colon, equals, semicolon, name, literal, d, id, l, domain, behindType, named, behindName,
      value, fits, ends⟩, rfl, rfl⟩
    simp only [List.cons_append, List.append_assoc, List.nil_append]
    exact ⟨d, _, ⟨type, domain, rfl⟩, (), _, ⟨colon, behindType, rfl⟩, id, _, ⟨name, named, by simp [behindName], rfl⟩,
      (), _, ⟨equals, behindName, rfl⟩, _, _, ⟨literal, l, value, fits, rfl, rfl⟩, (), _, ⟨semicolon, ends, rfl⟩,
      rfl, rfl⟩

theorem declarationEq : declaration = (do
    expect .var
    let (d, range) ← type
    expect .colon
    let id ← identifier .semicolon
    expect .semicolon
    return .unknowns [⟨id, d, range⟩]) := by
  unfold declaration type
  simp only [bind_assoc]
  congr
  funext _
  congr
  funext next
  cases next <;> simp

theorem meansDeclaration : Means cs declaration fun ts s behind =>
    ∃ body v, IsUnknown body v ∧ s = .unknowns [v] ∧ ts = body ++ behind := by
  rw [declarationEq]
  refine .congr ((meansExpect .var).bind fun _ => meansType.bind fun t => (meansExpect .colon).bind fun _ =>
    (meansIdentifier rfl).bind fun id => (meansExpect .semicolon).bind fun _ => .pure _) ?_
  intro ts _ s behind
  constructor
  · rintro ⟨_, _, ⟨var, word, rfl⟩, t, _, ⟨type, typed, rfl⟩, _, _, ⟨colon, behindType, rfl⟩, id, _,
      ⟨name, named, -, rfl⟩, _, _, ⟨semicolon, ends, rfl⟩, rfl, rfl⟩
    exact ⟨_, _, .declared word typed behindType named ends, rfl, by simp⟩
  · rintro ⟨_, _, @⟨var, colon, semicolon, type, name, d, range, id, word, typed, behindType, named, ends⟩, rfl, rfl⟩
    simp only [List.cons_append, List.append_assoc, List.nil_append]
    exact ⟨(), _, ⟨var, word, rfl⟩, (d, range), _, ⟨type, typed, rfl⟩, (), _, ⟨colon, behindType, rfl⟩, id, _,
      ⟨name, named, by simp [ends], rfl⟩, (), _, ⟨semicolon, ends, rfl⟩, rfl, rfl⟩

theorem meansConstraint : Means cs constraint fun ts s behind =>
    ∃ body c, IsConstraint cs body c ∧ (∀ t ∈ behind, t.kind ≠ .semicolon) ∧ s = .constraints [c]
      ∧ ts = body ++ behind := by
  unfold constraint
  refine .congr ((meansExpect .constraint).bind fun _ => (meansIdentifier rfl).bind fun id =>
    (meansExpect .colon).bind fun _ => meansExpression.bind fun e => .pure _) ?_
  intro ts _ s behind
  constructor
  · rintro ⟨_, _, ⟨constraint, word, rfl⟩, id, _, ⟨name, named, -, rfl⟩, _, _, ⟨colon, behindName, rfl⟩, e, _,
      ⟨body, states, last, rfl⟩, rfl, rfl⟩
    exact ⟨_, _, .stated word named behindName states, last, rfl, by simp⟩
  · rintro ⟨_, _, @⟨constraint, colon, name, body, id, e, word, named, behindName, states⟩, last, rfl, rfl⟩
    simp only [List.cons_append, List.append_assoc]
    exact ⟨(), _, ⟨constraint, word, rfl⟩, id, _, ⟨name, named, by simp [behindName], rfl⟩, (), _,
      ⟨colon, behindName, rfl⟩, e, _, ⟨body, states, last, rfl⟩, rfl, rfl⟩

theorem meansObjective (kind : GoalKind) :
    Means cs (do skip; return Statement.goal ⟨kind, some (← expression)⟩) fun ts s behind =>
      ∃ body e, IsExpression cs body e ∧ (∀ t ∈ behind, t.kind ≠ .semicolon) ∧ s = .goal ⟨kind, some e⟩
        ∧ ts.tail = body ++ behind := by
  refine .congr (meansSkip.bind fun _ => meansExpression.bind fun e => .pure _) ?_
  intro ts _ s behind
  constructor
  · rintro ⟨_, _, same, e, _, ⟨body, states, last, left⟩, rfl, rfl⟩
    exact ⟨body, e, states, last, rfl, same ▸ left⟩
  · rintro ⟨body, e, states, last, rfl, left⟩
    exact ⟨(), _, rfl, e, _, ⟨body, states, last, left⟩, rfl, rfl⟩

theorem meansGoal : Means cs goal fun ts s behind =>
    ∃ body g, IsGoal cs body g ∧ (g.kind ≠ .satisfy → ∀ t ∈ behind, t.kind ≠ .semicolon) ∧ s = .goal g
      ∧ ts = body ++ behind := by
  unfold goal
  refine .congr ((meansExpect .solve).bind fun _ => .peek (fun next ts s behind =>
    (next = some .satisfy ∧ s = .goal ⟨.satisfy, none⟩ ∧ ∃ t, t.kind = .semicolon ∧ ts.tail = t :: behind)
      ∨ ∃ k body e, ((next = some .minimize ∧ k = .minimize) ∨ next = some .maximize ∧ k = .maximize)
        ∧ IsExpression cs body e ∧ (∀ t ∈ behind, t.kind ≠ .semicolon) ∧ s = .goal ⟨k, some e⟩
        ∧ ts.tail = body ++ behind)
    meansKind ?_) ?_
  · intro next
    split
    · exact (meansSkip.bind fun _ => (meansExpect _).bind fun _ => .pure _).congr (by simp [and_comm])
    · exact (meansObjective .minimize).congr (by simp)
    · exact (meansObjective .maximize).congr (by simp)
    · next satisfy minimize maximize =>
      have otherwise : next ≠ some .satisfy ∧ next ≠ some .minimize ∧ next ≠ some .maximize := ⟨satisfy, minimize, maximize⟩
      exact (Means.failHere _).congr (by simp [otherwise])
  · intro ts _ s behind
    constructor
    · rintro ⟨_, _, ⟨solve, word, rfl⟩,
        ⟨head, rfl, t, ends, left⟩ | ⟨k, body, e, ⟨head, rfl⟩ | ⟨head, rfl⟩, states, last, rfl, left⟩⟩
      · obtain ⟨directive, rest, rfl, kind⟩ := consOfHeadKind head
        exact ⟨_, _, .satisfy word kind ends, by simp, rfl, by simpa using left⟩
      · obtain ⟨directive, rest, rfl, kind⟩ := consOfHeadKind head
        exact ⟨_, _, .minimize word kind states, fun _ => last, rfl, by simpa using left⟩
      · obtain ⟨directive, rest, rfl, kind⟩ := consOfHeadKind head
        exact ⟨_, _, .maximize word kind states, fun _ => last, rfl, by simpa using left⟩
    · rintro ⟨body, g, derived, last, rfl, rfl⟩
      cases derived with
      | satisfy word directive ends =>
        exact ⟨(), _, ⟨_, word, rfl⟩, .inl ⟨by simp [directive], rfl, _, ends, rfl⟩⟩
      | minimize word directive states =>
        exact ⟨(), _, ⟨_, word, rfl⟩, .inr ⟨_, _, _, .inl ⟨by simp [directive], rfl⟩, states, last (by simp), rfl, rfl⟩⟩
      | maximize word directive states =>
        exact ⟨(), _, ⟨_, word, rfl⟩, .inr ⟨_, _, _, .inr ⟨by simp [directive], rfl⟩, states, last (by simp), rfl, rfl⟩⟩

theorem statementOk {ts rest : List Token} {s : Statement} : statement ts = .ok (s, rest) ↔
    ∃ k p, (meaning ts).head?.map (·.kind) = some k ∧ called k = some p ∧ p ts = .ok (s, rest) ∧ meaning rest = [] := by
  have here : kind ts = .ok ((meaning ts).head?.map (·.kind), ts) := by
    rw [← meaningHead]
    rfl
  have runs {k : TokenKind} {p : Parser Statement} (handled : called k = some p) : (p >>= ending) ts = .ok (s, rest) ↔
      ∃ k' p', some k = some k' ∧ called k' = some p' ∧ p' ts = .ok (s, rest) ∧ meaning rest = [] := by
    rw [endingOk, meaningNil]
    simp [handled]
  have refuses {fault : Fault} {next : Option TokenKind} (unhandled : next.bind called = none) :
      (failHere fault >>= ending) ts = .ok (s, rest) ↔
        ∃ k p, next = some k ∧ called k = some p ∧ p ts = .ok (s, rest) ∧ meaning rest = [] := by
    refine iff_of_false (fun read => by cases (endingOk.mp read).1) ?_
    rintro ⟨k, p, rfl, handled, -⟩
    simp [handled] at unhandled
  unfold statement
  rw [bindOk here]
  generalize (meaning ts).head?.map (·.kind) = next
  split
  · exact runs rfl
  · exact runs rfl
  · exact runs rfl
  · exact runs rfl
  · exact runs rfl
  · exact runs rfl
  · next k int float bool var constraint solve =>
    refine refuses ?_
    cases k with
    | int => exact absurd rfl int
    | float => exact absurd rfl float
    | bool => exact absurd rfl bool
    | var => exact absurd rfl var
    | constraint => exact absurd rfl constraint
    | solve => exact absurd rfl solve
    | _ => rfl
  · exact refuses rfl

variable {ts : List Token} (inside : ts <:+ tokens cs) {s : Statement}

include inside

theorem derivedOfCalled {k : TokenKind} {p : Parser Statement} (handled : called k = some p)
    (read : ∃ rest, p ts = .ok (s, rest) ∧ meaning rest = []) : IsStatement cs (meaning ts) s := by
  have declared (read : ∃ rest, parameter ts = .ok (s, rest) ∧ meaning rest = []) : IsStatement cs (meaning ts) s := by
    obtain ⟨body, p, derived, rfl, same⟩ := (meansParameter.agrees inside s []).mp read
    rw [same, List.append_nil]
    exact .parameter derived
  unfold called at handled
  split at handled <;> cases handled
  · exact declared read
  · exact declared read
  · exact declared read
  · obtain ⟨body, v, derived, rfl, same⟩ := (meansDeclaration.agrees inside s []).mp read
    rw [same, List.append_nil]
    exact .unknown derived
  · obtain ⟨body, c, derived, -, rfl, same⟩ := (meansConstraint.agrees inside s []).mp read
    rw [same, List.append_nil]
    exact .constraint derived
  · obtain ⟨body, g, derived, -, rfl, same⟩ := (meansGoal.agrees inside s []).mp read
    rw [same, List.append_nil]
    exact .goal derived

theorem calledOfDerived (derived : IsStatement cs (meaning ts) s) : ∃ k p, (meaning ts).head?.map (·.kind) = some k
    ∧ called k = some p ∧ ∃ rest, p ts = .ok (s, rest) ∧ meaning rest = [] := by
  have whole := (List.append_nil (meaning ts)).symm
  cases derived with
  | @parameter p derived =>
    have handled : called (domainKind p.domain) = some parameter := by cases p.domain <;> rfl
    have read := (meansParameter.agrees inside _ []).mpr ⟨_, _, derived, rfl, whole⟩
    exact ⟨_, _, derived.begins, handled, read⟩
  | unknown derived =>
    have read := (meansDeclaration.agrees inside _ []).mpr ⟨_, _, derived, rfl, whole⟩
    exact ⟨_, _, derived.begins, rfl, read⟩
  | constraint derived =>
    have read := (meansConstraint.agrees inside _ []).mpr ⟨_, _, derived, by simp, rfl, whole⟩
    exact ⟨_, _, derived.begins, rfl, read⟩
  | goal derived =>
    have read := (meansGoal.agrees inside _ []).mpr ⟨_, _, derived, by simp, rfl, whole⟩
    exact ⟨_, _, derived.begins, rfl, read⟩

theorem statementDerived : (∃ rest, statement ts = .ok (s, rest)) ↔ IsStatement cs (meaning ts) s := by
  constructor
  · rintro ⟨rest, read⟩
    obtain ⟨k, p, -, handled, read, last⟩ := statementOk.mp read
    exact derivedOfCalled inside handled ⟨rest, read, last⟩
  · intro derived
    obtain ⟨k, p, begins, handled, rest, read, last⟩ := calledOfDerived inside derived
    exact ⟨rest, statementOk.mpr ⟨k, p, begins, handled, read, last⟩⟩

end Parser
end Line

theorem parsedByTheGrammar (cs : List Char) (s : Statement) :
    Line.parse cs = .ok s ↔ Line.IsStatement cs (Line.meaning (Line.tokens cs)) s := by
  rw [Line.parseOk]
  exact Line.Parser.statementDerived (List.suffix_refl _)

example : Line.parse "constraint a-1: x ; y ;".toList = .ok (.constraints [⟨"a-1", "x ; y"⟩]) := by decide +kernel

end ConstraintDesk
