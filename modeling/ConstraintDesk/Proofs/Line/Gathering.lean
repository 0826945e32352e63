import ConstraintDesk.Proofs.Line.Documents
import ConstraintDesk.Proofs.Line.Parsed

/-! What a document makes of its lines. Every line that is not blank gives one statement. Of these a model
keeps the lists of each kind in the order of the lines, and the last goal. -/
namespace ConstraintDesk

def Statement.gathered (kind : StatementKind) (statements : List Statement) : List Statement :=
  let own := statements.filter (·.kind = kind)
  if kind = .goal then own.getLast?.toList else own

theorem Statement.gatheredConcat (kind : StatementKind) (statements : List Statement) (s : Statement) :
    gathered kind (statements ++ [s]) = if s.kind = kind
      then if kind = .goal then [s] else gathered kind statements ++ [s]
      else gathered kind statements := by
  unfold gathered
  rw [List.filter_append]
  by_cases own : s.kind = kind
  · rw [List.filter_cons_of_pos (by simpa using own), if_pos own]
    split
    · simp
    · rfl
  · rw [List.filter_cons_of_neg (by simpa using own), if_neg own]
    simp

namespace Model

def part (m : Model) : StatementKind → List Statement
  | .parameters => m.parameters.map fun p => .parameters [p]
  | .unknowns => m.unknowns.map fun v => .unknowns [v]
  | .constraints => m.constraints.map fun c => .constraints [c]
  | .goal => m.goal.toList.map .goal

theorem partInjective {m n : Model} (same : ∀ kind, m.part kind = n.part kind) : m = n := by
  have parameters : m.parameters = n.parameters :=
    List.map_injective_iff.mpr (fun p q h => by simpa using h) (same .parameters)
  have unknowns : m.unknowns = n.unknowns :=
    List.map_injective_iff.mpr (fun v w h => by simpa using h) (same .unknowns)
  have constraints : m.constraints = n.constraints :=
    List.map_injective_iff.mpr (fun c d h => by simpa using h) (same .constraints)
  have goals : m.goal.toList = n.goal.toList :=
    List.map_injective_iff.mpr (fun g h same => by simpa using same) (same .goal)
  have goal : m.goal = n.goal := by simpa using congrArg List.head? goals
  obtain ⟨_, _, _, _⟩ := m
  obtain ⟨_, _, _, _⟩ := n
  simp_all

theorem partOfPush {s : Statement} (read : s.IsRead) (m : Model) (kind : StatementKind) :
    (m.push s).part kind = if s.kind = kind
      then if kind = .goal then [s] else m.part kind ++ [s]
      else m.part kind := by
  cases read with
  | parameter | unknown | constraint | goal => cases kind <;> simp [push, part, Statement.kind]

theorem partOfPushed {statements : List Statement} (read : ∀ s ∈ statements, s.IsRead) (kind : StatementKind) :
    (statements.foldl push empty).part kind = Statement.gathered kind statements := by
  -- By the last statement, behind which nothing is pushed any more.
  induction statements using List.reverseRecOn with
  | nil => cases kind <;> rfl
  | append_singleton statements s ih =>
    rw [List.foldl_append, List.foldl_cons, List.foldl_nil, partOfPush (read s (by simp)),
      ih fun t member => read t (by simp [member]), Statement.gatheredConcat]

/-- The lists of a model are the statements of their kinds, and its goal is the last of the goals. -/
structure Gathers (m : Model) (statements : List Statement) : Prop where
  parameters : (m.parameters.map fun p => Statement.parameters [p]) = statements.filter (·.kind = .parameters)
  unknowns : (m.unknowns.map fun v => Statement.unknowns [v]) = statements.filter (·.kind = .unknowns)
  constraints : (m.constraints.map fun c => Statement.constraints [c]) = statements.filter (·.kind = .constraints)
  goal : m.goal.map Statement.goal = (statements.filter (·.kind = .goal)).getLast?

theorem gathersIff {m : Model} {statements : List Statement} :
    m.Gathers statements ↔ ∀ kind, m.part kind = Statement.gathered kind statements := by
  have goals : m.goal.toList.map Statement.goal = (m.goal.map Statement.goal).toList := Option.toList_map.symm
  constructor
  · rintro ⟨parameters, unknowns, constraints, goal⟩ kind
    cases kind with
    | parameters => exact parameters
    | unknowns => exact unknowns
    | constraints => exact constraints
    | goal => exact goals.trans (congrArg Option.toList goal)
  · intro parts
    have last := congrArg List.head? (goals.symm.trans (parts .goal))
    exact ⟨parts .parameters, parts .unknowns, parts .constraints, by simpa [Statement.gathered] using last⟩

end Model

namespace Line

def HasStatements (text : List Char) (statements : List Statement) : Prop :=
  ((Text.lines text).filter (!isBlankLine ·)).map parse = statements.map .ok

theorem addLinesOk {lines : List (List Char)} {m n : Model} {index : Nat} : addLines m index lines = .ok n ↔
    ∃ statements : List Statement,
      (lines.filter (!isBlankLine ·)).map parse = statements.map .ok ∧ n = statements.foldl Model.push m := by
  induction lines generalizing m index with
  | nil => simp [addLines, eq_comm]
  | cons line rest ih =>
    rw [addLines, addLine]
    cases blank : isBlankLine line with
    | true => simpa [blank] using ih
    | false =>
      simp only [Bool.false_eq_true, if_false, List.filter_cons_of_pos, blank, Bool.not_false, List.map_cons]
      cases read : parse line with
      | error e => simp [eq_comm (a := _ :: _), List.map_eq_cons_iff]
      | ok s =>
        simp only [ih, eq_comm (a := _ :: _), List.map_eq_cons_iff, Except.ok.injEq]
        constructor
        · rintro ⟨statements, same, rfl⟩
          exact ⟨s :: statements, ⟨s, statements, rfl, rfl, same.symm⟩, rfl⟩
        · rintro ⟨_, ⟨_, statements, rfl, rfl, same⟩, rfl⟩
          exact ⟨statements, same.symm, rfl⟩

theorem documentOk {text : List Char} {m : Model} :
    parseDocument text = .ok m ↔ ∃ statements, HasStatements text statements ∧ m = statements.foldl Model.push .empty :=
  addLinesOk

theorem HasStatements.read {text : List Char} {statements : List Statement} (has : HasStatements text statements) :
    ∀ s ∈ statements, s.IsRead := by
  intro s member
  have inside : Except.ok s ∈ statements.map (Except.ok (ε := SyntaxError)) := List.mem_map_of_mem member
  rw [← has] at inside
  obtain ⟨line, found, read⟩ := List.mem_map.mp inside
  exact readOfParse (Text.linesUnbroken (List.mem_filter.mp found).1) read

theorem HasStatements.document {text : List Char} {statements : List Statement} (has : HasStatements text statements) :
    ∃ m, parseDocument text = .ok m ∧ m.Gathers statements :=
  ⟨_, documentOk.mpr ⟨statements, has, rfl⟩, Model.gathersIff.mpr (Model.partOfPushed has.read)⟩

end Line

theorem documentGathersItsLines :
    (∀ text m, Line.parseDocument text = .ok m
        ↔ ∃ statements, Line.HasStatements text statements ∧ m.Gathers statements)
      ∧ (∀ text other statements mixed, Line.HasStatements text statements → Line.HasStatements other mixed →
        (∀ kind, statements.filter (·.kind = kind) = mixed.filter (·.kind = kind)) →
        Line.parseDocument text = Line.parseDocument other)
      ∧ ∀ m n : Model, m.statements.foldl Model.push .empty = m
        ∧ m.statements.foldl Model.push n = ⟨n.parameters ++ m.parameters, n.unknowns ++ m.unknowns,
          n.constraints ++ m.constraints, m.goal.or n.goal⟩ := by
  have unique {m n : Model} {statements : List Statement} (first : m.Gathers statements) (second : n.Gathers statements) :
      m = n :=
    Model.partInjective fun kind => (Model.gathersIff.mp first kind).trans (Model.gathersIff.mp second kind).symm
  refine ⟨fun text m => ⟨fun read => ?_, ?_⟩, fun text other statements mixed has hasMixed same => ?_,
    fun m n => ⟨m.pushStatements, m.pushAll n⟩⟩
  · obtain ⟨statements, has, -⟩ := Line.documentOk.mp read
    obtain ⟨n, again, gathers⟩ := has.document
    exact ⟨statements, has, Except.ok.inj (read.symm.trans again) ▸ gathers⟩
  · rintro ⟨statements, has, gathers⟩
    obtain ⟨n, read, again⟩ := has.document
    rw [read, unique gathers again]
  · obtain ⟨m, read, gathers⟩ := has.document
    obtain ⟨n, readMixed, gathersMixed⟩ := hasMixed.document
    have moved : m.Gathers mixed := by
      rw [Model.gathersIff] at gathers ⊢
      intro kind
      rw [gathers kind, Statement.gathered, Statement.gathered, same]
    rw [read, readMixed, unique moved gathersMixed]

theorem mixedLinesAreOneModel :
    Line.parseDocument "solve satisfy;\nvar 0..9: x;\n% costs\nint: p = 3;\n\nsolve maximize x;\nvar bool: y;".toList
      = Line.parseDocument "int: p = 3;\r\nsolve satisfy;\nsolve maximize x;\nvar 0..9: x;\nvar bool: y;\n".toList := by
  refine documentGathersItsLines.2.1 _ _
    [.goal ⟨.satisfy, none⟩, .unknowns [⟨"x", .int, some ⟨.int 0, .int 9⟩⟩], .parameters [⟨"p", .int, .int 3⟩],
      .goal ⟨.maximize, some "x"⟩, .unknowns [⟨"y", .bool, none⟩]]
    [.parameters [⟨"p", .int, .int 3⟩], .goal ⟨.satisfy, none⟩, .goal ⟨.maximize, some "x"⟩,
      .unknowns [⟨"x", .int, some ⟨.int 0, .int 9⟩⟩], .unknowns [⟨"y", .bool, none⟩]] ?_ ?_ ?_
  · unfold Line.HasStatements
    decide +kernel
  · unfold Line.HasStatements
    decide +kernel
  · intro kind
    cases kind <;> rfl

end ConstraintDesk
