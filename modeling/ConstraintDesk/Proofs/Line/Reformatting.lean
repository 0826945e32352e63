import ConstraintDesk.Proofs.Decimal.Whole
import ConstraintDesk.Proofs.Line.Rereading

/-! Documents that are read, written and read again. What is written is read as the model with its
expressions on one line and the integer bounds of its float ranges made floats. The expressions are then
written as before. A bound is, if its float is written with all the digits of the integer. -/
namespace ConstraintDesk

def Literal.IsKept : Literal → Prop
  | .int i => i.toInt.natAbs < 10 ^ 16 ∧ (i.toInt.natAbs < 2 ^ 53 ∨ 2 ∣ i.toInt.natAbs)
  | _ => True

structure Bounds.IsKept (r : Bounds) : Prop where
  min : r.min.IsKept
  max : r.max.IsKept

def Statement.IsKept : Statement → Prop
  | .unknowns items => ∀ v ∈ items, v.domain = .float → ∀ r, v.range = some r → r.IsKept
  | _ => True

def Model.KeepsBounds (m : Model) : Prop :=
  ∀ v ∈ m.unknowns, v.domain = .float → ∀ r, v.range = some r → r.IsKept

theorem Literal.keptText (l : Literal) : (l.asWritten .float).textIn .float = l.textIn .float ↔ l.IsKept := by
  cases l with
  | bool b => exact iff_of_true rfl trivial
  | float x => exact iff_of_true rfl trivial
  | int i =>
    have low : -2 ^ 63 ≤ i.toInt := i.le_toInt
    have high : i.toInt < 2 ^ 63 := i.toInt_lt
    have after : ((int i).asWritten .float).textIn .float
        = Line.sign (decide (i.toInt < 0)) ++ spelling.magnitude (Binary64.codeOfRatio i.toInt.natAbs 1) :=
      Line.writeSign spelling (Binary64.ofInt i.toInt)
    have before : (int i).textIn .float
        = Line.sign (decide (i.toInt < 0)) ++ (Decimal.digitsOf i.toInt.natAbs ++ ".0".toList) := by
      rw [← List.append_assoc, ← Line.intDigitsSign]
      rfl
    rw [after, before, List.append_right_inj]
    exact Decimal.wholeText (by decide) rfl (by omega)

open Line in
theorem boundApart {a b : Literal} (fits : a.fits .float = true ∧ b.fits .float = true)
    (finite : a.IsFinite ∧ b.IsFinite) {rest left : List Char} (ends : NumberEnds rest) (stops : NumberEnds left)
    (same : a.textIn .float ++ rest = b.textIn .float ++ left) :
    a.textIn .float = b.textIn .float ∧ rest = left := by
  have first := Parser.readsBound fits.1 (by decide) finite.1 ends .none
  have second := Parser.readsBound fits.2 (by decide) finite.2 stops .none
  rw [same] at first
  obtain rfl := first.leaves second
  exact ⟨List.append_cancel_right same, rfl⟩

theorem boundsApart {r : Bounds} (fits : r.Fits .float) (finite : r.IsFinite) {id : String}
    (same : (Variable.mk id .float (some (r.asWritten .float))).line = (Variable.mk id .float (some r)).line) :
    (r.min.asWritten .float).textIn .float = r.min.textIn .float
      ∧ (r.max.asWritten .float).textIn .float = r.max.textIn .float := by
  have numeric : Domain.float ≠ .bool := by decide
  rw [Variable.lineOfRange id numeric, Variable.lineOfRange id numeric] at same
  have same := List.tail_eq_of_cons_eq (List.append_cancel_left same)
  obtain ⟨first, same⟩ := boundApart ⟨Literal.fitsAsWritten fits.min, fits.min⟩
    ⟨Literal.finiteAsWritten finite.min _, finite.min⟩ (Line.numberEndsDots _) (Line.numberEndsDots _) same
  obtain ⟨second, -⟩ := boundApart ⟨Literal.fitsAsWritten fits.max, fits.max⟩
    ⟨Literal.finiteAsWritten finite.max _, finite.max⟩ (Line.numberEndsColon _) (Line.numberEndsColon _)
    (List.tail_eq_of_cons_eq (List.tail_eq_of_cons_eq same))
  exact ⟨first, second⟩

theorem Variable.keptLine {v : Variable} (read : v.IsRead) (finite : v.IsFinite) :
    v.asWritten.line = v.line ↔ (v.domain = .float → ∀ r, v.range = some r → r.IsKept) := by
  obtain ⟨id, domain, range⟩ := v
  cases range with
  | none => simp [asWritten]
  | some r =>
    have fits := read.range r rfl
    cases domain with
    | bool => exact absurd rfl fits.numeric
    | int => simp [asWritten, Bounds.asWritten, Literal.asWrittenInt]
    | float =>
      constructor
      · intro same _ _ ranged
        cases ranged
        obtain ⟨first, second⟩ := boundsApart fits (finite r rfl) same
        exact ⟨r.min.keptText.mp first, r.max.keptText.mp second⟩
      · intro kept
        obtain ⟨first, second⟩ := kept rfl r rfl
        have written : (mk id .float (some r)).asWritten = mk id .float (some (r.asWritten .float)) := rfl
        rw [written, lineOfRange id fits.numeric, lineOfRange id fits.numeric, Bounds.asWritten,
          r.min.keptText.mpr first, r.max.keptText.mpr second]

theorem oneLineWritten (e : String) : Text.oneLine (writtenExpression e).toList = Text.oneLine e.toList := by
  rw [writtenExpression, String.toList_ofList, Text.oneLineOneLine]

theorem Constraint.lineAsWritten (c : Constraint) : c.asWritten.line = c.line := by
  unfold line asWritten
  simp only [oneLineWritten]

theorem Goal.lineAsWritten (g : Goal) : g.asWritten.line = g.line := by
  obtain ⟨kind, expression⟩ := g
  unfold line asWritten
  cases expression with
  | none => simp only [Option.map_none]
  | some e => simp only [Option.map_some, oneLineWritten]

theorem Statement.keptText {s : Statement} (read : s.IsRead) (finite : s.IsFinite) :
    s.asWritten.text = s.text ↔ s.IsKept := by
  cases read with
  | @parameter p read =>
    have same : p.asWritten = p := by
      unfold Parameter.asWritten
      rw [read.widened]
    exact iff_of_true (by rw [asWritten, List.map_singleton, same]) trivial
  | @unknown v read =>
    have kept := Variable.keptLine read (finite v (by simp))
    simpa [asWritten, textOfUnknown, IsKept] using kept
  | @constraint c read =>
    refine iff_of_true ?_ trivial
    rw [asWritten, List.map_singleton, textOfConstraint, textOfConstraint, c.lineAsWritten]
  | @goal g read =>
    refine iff_of_true ?_ trivial
    rw [asWritten, textOfGoal, textOfGoal, g.lineAsWritten]

theorem Statement.IsRead.writtenIsLine {s : Statement} (read : s.IsRead) : Text.IsLine s.asWritten.text := by
  cases read with
  | @parameter p read =>
    exact Statement.textOfParameter p.asWritten ▸ Parameter.isLine (p := p.asWritten) read.unbroken
  | @unknown v read => exact Statement.textOfUnknown v.asWritten ▸ Variable.isLine (v := v.asWritten) read.unbroken
  | @constraint c read =>
    exact Statement.textOfConstraint c.asWritten ▸ Constraint.isLine (c := c.asWritten) read.unbroken
  | @goal g read => exact Statement.textOfGoal g.asWritten ▸ g.asWritten.isLine

namespace Model

theorem keepsStatements {m : Model} : (∀ s ∈ m.statements, s.IsKept) ↔ m.KeepsBounds := by
  constructor
  · intro each v member
    exact each _ (memberOfStatements.mpr (.inr (.inl ⟨v, member, rfl⟩))) v (by simp)
  · intro kept s member
    rcases memberOfStatements.mp member with ⟨p, -, rfl⟩ | ⟨v, inside, rfl⟩ | ⟨c, -, rfl⟩ | ⟨g, -, rfl⟩
    · trivial
    · intro w one
      exact List.mem_singleton.mp one ▸ kept v inside
    · trivial
    · trivial

theorem keptDocument {m : Model} (read : m.IsRead) (finite : m.IsFinite) :
    m.asWritten.document = m.document ↔ m.KeepsBounds := by
  have each {s : Statement} (member : s ∈ m.statements) : s.asWritten.text = s.text ↔ s.IsKept :=
    Statement.keptText (read.statement member) (finite.statement member)
  have before := linesOfDocument fun s member => (read.statement member).isLine
  have after : Text.lines m.asWritten.document = m.asWritten.statements.map Statement.text ++ [[]] := by
    refine linesOfDocument fun s member => ?_
    rw [← statementsAsWritten] at member
    obtain ⟨t, inside, rfl⟩ := List.mem_map.mp member
    exact (read.statement inside).writtenIsLine
  rw [← keepsStatements]
  constructor
  · intro same s member
    rw [same, before, ← statementsAsWritten, List.map_map] at after
    have texts := List.append_cancel_right after
    exact (each member).mp (List.map_inj_left.mp texts s member).symm
  · intro kept
    rw [document, document, ← statementsAsWritten, List.flatMap_map]
    exact List.flatMap_congr fun s member => by rw [(each member).mpr (kept s member)]

end Model

theorem reformattingIsStable {text : List Char} {m : Model} (read : Line.parseDocument text = .ok m) :
    ((∃ n, Line.parseDocument m.document = .ok n) ↔ m.IsFinite ∧ m.IsStated)
      ∧ ((∃ n, Line.parseDocument m.document = .ok n ∧ n.document = m.document)
        ↔ (m.IsFinite ∧ m.IsStated) ∧ m.KeepsBounds) := by
  have read := Line.readOfDocument read
  simp only [Model.readOfWritten read]
  constructor
  · simp
  · constructor
    · rintro ⟨n, ⟨readable, rfl⟩, same⟩
      exact ⟨readable, (Model.keptDocument read readable.1).mp same⟩
    · rintro ⟨readable, kept⟩
      exact ⟨_, ⟨readable, rfl⟩, (Model.keptDocument read readable.1).mpr kept⟩

theorem mixedRangeIsStable :
    Line.parseDocument "var 0.5..3: x;".toList
        = .ok ⟨[], [⟨"x", .float, some ⟨.float (Binary64.ofRatio false 1 2), .int 3⟩⟩], [], none⟩
      ∧ ∃ n, Line.parseDocument
          (Model.document ⟨[], [⟨"x", .float, some ⟨.float (Binary64.ofRatio false 1 2), .int 3⟩⟩], [], none⟩) = .ok n
        ∧ n.document
          = Model.document ⟨[], [⟨"x", .float, some ⟨.float (Binary64.ofRatio false 1 2), .int 3⟩⟩], [], none⟩ := by
  have read : Line.parseDocument "var 0.5..3: x;".toList
      = .ok ⟨[], [⟨"x", .float, some ⟨.float (Binary64.ofRatio false 1 2), .int 3⟩⟩], [], none⟩ :=
    okOfToOption (by decide +kernel)
  refine ⟨read, (reformattingIsStable read).2.mpr ⟨⟨⟨by simp, ?_⟩, ⟨by simp, by simp⟩⟩, ?_⟩⟩
  · intro v member r range
    cases List.mem_singleton.mp member
    cases range
    have half : (Binary64.ofRatio false 1 2).isFinite = true := by decide +kernel
    exact ⟨half, trivial⟩
  · intro v member _ r range
    cases List.mem_singleton.mp member
    cases range
    exact ⟨trivial, by decide, .inl (by decide)⟩

theorem hugeDecimalIsNotReadBack :
    ∃ m, Line.parseDocument "float: p = 1e999;".toList = .ok m ∧ ∀ n, Line.parseDocument m.document ≠ .ok n := by
  refine ⟨⟨[⟨"p", .float, .float Binary64.infinity⟩], [], [], none⟩, okOfToOption (by decide +kernel), fun n read => ?_⟩
  have failed : (Line.parseDocument
      (Model.document ⟨[⟨"p", .float, .float Binary64.infinity⟩], [], [], none⟩)).toOption = none := by
    decide +kernel
  rw [read] at failed
  cases failed

end ConstraintDesk
