import ConstraintDesk.Proofs.Decimal.Nearest
import ConstraintDesk.Proofs.Line.Rereading

/-! What survives being written as a line and read back. A constraint or a goal does if the semicolon
behind its expression ends it, whatever the expression says. A declaration does if its literals fit its
domain, and the validator lets through no other one. -/
namespace ConstraintDesk

namespace Line

/-- The expressions, laid out on one line, that a semicolon of its own ends. -/
structure Survives (e : List Char) : Prop where
  notEmpty : e ≠ []
  begins : e.head? ≠ some ';'
  ended : IsTerminated (e ++ [';'])

theorem writtenToList (e : String) : (writtenExpression e).toList = Text.oneLine e.toList := String.toList_ofList

theorem settledWritten (e : String) :
    IsSettled (writtenExpression e).toList ↔ IsTerminated ((writtenExpression e).toList ++ [';']) := by
  have unbroken : '\n' ∉ Text.oneLine e.toList := IsUnbroken.oneLine e.toList
  rw [writtenToList, terminatedIff unbroken]
  exact ⟨fun settled => settled.strings, fun strings => ⟨Text.trimOneLine e.toList, unbroken, strings⟩⟩

variable {kind : TokenKind} {w rest : List Char} {p : Parser Statement} {make : String → Statement} {e : String}

theorem parseOfSurviving (piece : IsPiece kind w rest) (handled : Parser.called kind = some p)
    (waits : Becomes p (Parser.withExpression make) (w ++ rest) ([' '] ++ (Text.oneLine e.toList ++ [';'])))
    (settles : parse (w ++ rest) = .ok (make (writtenExpression e)) → IsSettled (writtenExpression e).toList) :
    parse (w ++ rest) = .ok (make (writtenExpression e)) ↔ Survives (Text.oneLine e.toList) := by
  have again : Text.oneLine (writtenExpression e).toList = Text.oneLine e.toList := by
    rw [writtenToList, Text.oneLineOneLine]
  have same : writtenExpression (writtenExpression e) = writtenExpression e := congrArg String.ofList again
  rw [← again] at waits
  have reads (settled : IsSettled (writtenExpression e).toList) :
      parse (w ++ rest) = .ok (make (writtenExpression e)) ↔ ConstraintDesk.IsStated (writtenExpression e) := by
    rw [parseOfSettled piece handled settled waits, same, and_iff_left rfl]
  rw [← writtenToList]
  constructor
  · intro read
    have settled := settles read
    have stated := (reads settled).mp read
    exact ⟨stated.notEmpty, stated.begins, (settledWritten e).mp settled⟩
  · intro survives
    exact (reads ((settledWritten e).mpr survives.ended)).mpr ⟨survives.notEmpty, survives.begins⟩

theorem constraintSurvives {id : String} (name : IsName id) (e : String) :
    parse (Statement.constraints [⟨id, e⟩]).text = .ok (.constraints [⟨id, writtenExpression e⟩])
      ↔ Survives (Text.oneLine e.toList) := by
  have unbroken := (Constraint.isLine (c := ⟨id, e⟩) name.unbroken).unbroken
  have waits := Parser.constraintWaits (c := ⟨id, e⟩) (Parser.identifierOfName (by simp) name)
  obtain ⟨rest, line⟩ := constraintBegins ⟨id, e⟩
  rw [Statement.textOfConstraint]
  rw [line] at unbroken waits ⊢
  refine parseOfSurviving (Parser.pieceOfConstraint rest) rfl waits fun read => ?_
  cases readOfParse unbroken read with
  | constraint read => exact read.settled

theorem goalSurvives {kind : GoalKind} (directed : kind ≠ .satisfy) (e : String) :
    parse (Statement.goal ⟨kind, some e⟩).text = .ok (.goal ⟨kind, some (writtenExpression e)⟩)
      ↔ Survives (Text.oneLine e.toList) := by
  have unbroken := (Goal.mk kind (some e)).isLine.unbroken
  have waits := Parser.goalWaits directed e
  obtain ⟨rest, line⟩ := goalBegins ⟨kind, some e⟩
  rw [Statement.textOfGoal]
  rw [line] at unbroken waits ⊢
  refine parseOfSurviving (Parser.pieceOfSolve rest) rfl waits fun read => ?_
  cases readOfParse unbroken read with
  | goal read =>
    cases read with
    | directed _ settled => exact settled

end Line

theorem endedExpressionsSurvive (e : String) :
    (∀ id, idFlaw? id = none →
        (Line.parse (Statement.constraints [⟨id, e⟩]).text = .ok (.constraints [⟨id, writtenExpression e⟩])
          ↔ Line.Survives (Text.oneLine e.toList)))
      ∧ ∀ kind, kind ≠ GoalKind.satisfy →
        (Line.parse (Statement.goal ⟨kind, some e⟩).text = .ok (.goal ⟨kind, some (writtenExpression e)⟩)
          ↔ Line.Survives (Text.oneLine e.toList)) :=
  ⟨fun _ named => Line.constraintSurvives (idFlawNone.mp named) e, fun _ directed => Line.goalSurvives directed e⟩

theorem quotedSemicolonSurvives :
    Line.parse (Statement.constraints [⟨"c-1", "x =\n  \"50%; \\\"\" ; y"⟩]).text
        = .ok (.constraints [⟨"c-1", "x = \"50%; \\\"\" ; y"⟩])
      ∧ Line.parse (Statement.goal ⟨.minimize, some "x =\n  \"50%; \\\"\" ; y"⟩).text
        = .ok (.goal ⟨.minimize, some "x = \"50%; \\\"\" ; y"⟩) := by
  obtain ⟨constraint, goal⟩ := endedExpressionsSurvive "x =\n  \"50%; \\\"\" ; y"
  have survives : Line.Survives (Text.oneLine "x =\n  \"50%; \\\"\" ; y".toList) :=
    ⟨by decide, by decide, by decide +kernel, by decide +kernel⟩
  have written : writtenExpression "x =\n  \"50%; \\\"\" ; y" = "x = \"50%; \\\"\" ; y" := by decide
  rw [written] at constraint goal
  exact ⟨(constraint "c-1" (by decide)).mpr survives, (goal .minimize (by decide)).mpr survives⟩

theorem Literal.fitsOfWritten {l : Literal} {d : Domain} (fits : (l.asWritten d).fits d = true) : l.fits d = true := by
  cases l with
  | bool b => exact fits
  | int i => cases d <;> first | rfl | exact fits
  | float x => exact fits

theorem Bounds.fitsOfWritten {r : Bounds} {d : Domain} (fits : (r.asWritten d).Fits d) : r.Fits d :=
  ⟨fits.numeric, Literal.fitsOfWritten fits.min, Literal.fitsOfWritten fits.max⟩

namespace Line

theorem parameterSurvives {p : Parameter} (name : IsName p.id) (finite : p.value.IsFinite) :
    parse (Statement.parameters [p]).text = .ok (.parameters [p.asWritten]) ↔ p.value.fits p.domain = true := by
  have unbroken := (Statement.textOfParameter p ▸ Parameter.isLine name.unbroken).unbroken
  constructor
  · intro read
    cases readOfParse unbroken read with
    | parameter read => exact Literal.fitsOfWritten read.fits
  · intro fits
    exact (parseWritten (.parameter ⟨name, fits⟩) (by simpa [Statement.IsFinite] using finite)).mpr ⟨trivial, rfl⟩

theorem unknownSurvives {v : Variable} (name : IsName v.id) (finite : v.IsFinite) :
    parse (Statement.unknowns [v]).text = .ok (.unknowns [v.asWritten]) ↔ ∀ r, v.range = some r → r.Fits v.domain := by
  have unbroken := (Statement.textOfUnknown v ▸ Variable.isLine name.unbroken).unbroken
  constructor
  · intro read r range
    cases readOfParse unbroken read with
    | unknown read => exact Bounds.fitsOfWritten (read.range _ (congrArg (Option.map _) range))
  · intro fits
    exact (parseWritten (.unknown ⟨name, fits⟩) (by simpa [Statement.IsFinite] using finite)).mpr ⟨trivial, rfl⟩

end Line

theorem validatorAgreesOnLiterals :
    (∀ p : Parameter, idFlaw? p.id = none → p.value.IsFinite →
        (p.flaw? = none ↔ Line.parse (Statement.parameters [p]).text = .ok (.parameters [p.asWritten])))
      ∧ (∀ v : Variable, idFlaw? v.id = none → v.IsFinite →
        (v.flaw? = none ↔ Line.parse (Statement.unknowns [v]).text = .ok (.unknowns [v.asWritten])))
      ∧ ∀ i : Int64, ∃ x, (Literal.int i).asWritten .float = .float x ∧ x.IsNearest i.toInt := by
  refine ⟨fun p named finite => ?_, fun v named finite => ?_, fun i => ⟨_, rfl, ?_⟩⟩
  · have name := idFlawNone.mp named
    rw [Parameter.flawNone, Line.parameterSurvives name finite]
    exact ⟨fun valid => valid.fits, fun fits => ⟨name, fits⟩⟩
  · have name := idFlawNone.mp named
    rw [Variable.flawNone, Line.unknownSurvives name finite]
    exact ⟨fun valid => valid.range, fun fits => ⟨name, fits⟩⟩
  · have low : -2 ^ 63 ≤ i.toInt := i.le_toInt
    have high : i.toInt < 2 ^ 63 := i.toInt_lt
    exact Binary64.nearestOfInt (by omega)

theorem extremeLiteralsAgree :
    Line.parse (Statement.parameters [⟨"low", .int, .int Int64.minValue⟩]).text
        = .ok (.parameters [⟨"low", .int, .int Int64.minValue⟩])
      ∧ Line.parse (Statement.unknowns [⟨"x", .float, some ⟨.int Int64.minValue, .int 3⟩⟩]).text
        = .ok (.unknowns [⟨"x", .float,
            some ⟨.float (Binary64.ofInt Int64.minValue.toInt), .float (Binary64.ofInt 3)⟩⟩])
      ∧ Line.parse (Statement.unknowns [⟨"b", .bool, some ⟨.int 0, .int 1⟩⟩]).text
        ≠ .ok (.unknowns [⟨"b", .bool, some ⟨.int 0, .int 1⟩⟩]) := by
  obtain ⟨parameters, unknowns, -⟩ := validatorAgreesOnLiterals
  refine ⟨(parameters ⟨"low", .int, .int Int64.minValue⟩ (by decide) trivial).mp (by decide), ?_, ?_⟩
  · exact (unknowns ⟨"x", .float, some ⟨.int Int64.minValue, .int 3⟩⟩ (by decide)
      fun r same => by cases same; exact ⟨trivial, trivial⟩).mp (by decide)
  · have ranged : (Variable.mk "b" .bool (some ⟨.int 0, .int 1⟩)).flaw? ≠ none := by decide
    intro read
    exact ranged ((unknowns ⟨"b", .bool, some ⟨.int 0, .int 1⟩⟩ (by decide)
      fun r same => by cases same; exact ⟨trivial, trivial⟩).mpr read)

end ConstraintDesk
