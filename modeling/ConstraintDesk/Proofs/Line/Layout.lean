import ConstraintDesk.Line.Document
import ConstraintDesk.Proofs.Decimal.Spelling
import ConstraintDesk.Proofs.Model.Encoding
import ConstraintDesk.Proofs.Text.Lines
import ConstraintDesk.Proofs.Text.Words

/-! One statement a line. Neither ids nor literals nor expressions bring a line break into what is
written, and every line ends in a semicolon, so cutting a document into lines gives its statements
back. -/
namespace ConstraintDesk

open Text (IsLine)

def IsUnbroken (cs : List Char) : Prop := '\n' ∉ cs

instance (cs : List Char) : Decidable (IsUnbroken cs) := inferInstanceAs (Decidable ('\n' ∉ cs))

namespace IsUnbroken

theorem append {front back : List Char} (h : IsUnbroken front) (k : IsUnbroken back) :
    IsUnbroken (front ++ back) := by
  intro member
  rcases List.mem_append.mp member with left | right
  · exact h left
  · exact k right

theorem left {front back : List Char} (h : IsUnbroken (front ++ back)) : IsUnbroken front :=
  fun member => h (List.mem_append_left _ member)

theorem right {front back : List Char} (h : IsUnbroken (front ++ back)) : IsUnbroken back :=
  fun member => h (List.mem_append_right _ member)

theorem closed {cs : List Char} (h : IsUnbroken cs) : IsLine (cs ++ [';']) := by
  have semicolon : IsUnbroken [';'] := by decide
  exact ⟨h.append semicolon, by simp⟩

theorem ofDark {cs : List Char} (dark : ∀ c ∈ cs, Text.isBlank c = false) : IsUnbroken cs :=
  fun member => absurd (dark _ member) (by decide)

theorem oneLine (cs : List Char) : IsUnbroken (Text.oneLine cs) := by
  intro member
  rcases Text.charOfOneLine member with space | inside
  · exact absurd space (by decide)
  · exact absurd inside.1 (by decide)

end IsUnbroken

theorem darkConstant {cs : List Char} (dark : cs.all (fun c => !Text.isBlank c) = true) :
    ∀ c ∈ cs, Text.isBlank c = false := by
  intro c member
  have one := List.all_eq_true.mp dark c member
  simpa using one

theorem darkIntDigits (i : Int) : ∀ c ∈ Spelling.intDigits i, Text.isBlank c = false := by
  intro c member
  unfold Spelling.intDigits at member
  split at member
  · rcases List.mem_cons.mp member with rfl | digit
    · decide
    · exact Decimal.darkDigit (Decimal.digitOfDigits digit)
  · exact Decimal.darkDigit (Decimal.digitOfDigits member)

theorem darkSpelling {cs : List Char} {x : ℚ} (h : Decimal.IsSpelling cs x) :
    ∀ c ∈ cs, Text.isBlank c = false := by
  intro c member
  rcases h.char member with digit | rfl | rfl | rfl | rfl
  · exact Decimal.darkDigit digit
  all_goals decide

theorem darkMagnitude (s : Spelling) {code : Nat} (bound : code ≤ Binary64.infinityCode) :
    ∀ c ∈ s.magnitude code, Text.isBlank c = false := by
  rcases Nat.eq_or_lt_of_le bound with infinite | finite
  · have text : s.magnitude code = "inf".toList := by
      rw [infinite]
      rfl
    rw [text]
    exact darkConstant (by decide)
  · obtain ⟨d, spelled, -⟩ := Decimal.magnitudeSpells s finite
    exact darkSpelling spelled

namespace Literal

theorem darkText (l : Literal) : ∀ c ∈ l.text, Text.isBlank c = false := by
  cases l with
  | bool b => cases b <;> exact darkConstant (by decide)
  | int i => exact darkIntDigits _
  | float x =>
    intro c member
    unfold text Spelling.write at member
    simp only at member
    split at member
    · rcases List.mem_cons.mp member with rfl | inside
      · decide
      · exact darkMagnitude _ x.codeLe c inside
    · exact darkMagnitude _ x.codeLe c member

theorem darkTextIn (domain : Domain) (l : Literal) : ∀ c ∈ l.textIn domain, Text.isBlank c = false := by
  unfold textIn
  split
  · intro c member
    rcases List.mem_append.mp member with digits | zero
    · exact darkIntDigits _ c digits
    · exact darkConstant (by decide) c zero
  · exact darkText l

end Literal

theorem IsName.unbroken {id : String} (name : IsName id) : IsUnbroken id.toList := .ofDark name.dark

theorem Domain.unbroken (d : Domain) : IsUnbroken d.name.toList := by
  cases d <;> decide

theorem Literal.unbroken (d : Domain) (l : Literal) : IsUnbroken (l.textIn d) := .ofDark (Literal.darkTextIn d l)

theorem Parameter.isLine {p : Parameter} (id : IsUnbroken p.id.toList) : IsLine p.line := by
  have colon : IsUnbroken ": ".toList := by decide
  have equals : IsUnbroken " = ".toList := by decide
  exact ((((p.domain.unbroken.append colon).append id).append equals).append (p.value.unbroken p.domain)).closed

theorem Variable.isLine {v : Variable} (id : IsUnbroken v.id.toList) : IsLine v.line := by
  have var : IsUnbroken "var ".toList := by decide
  have dots : IsUnbroken "..".toList := by decide
  have colon : IsUnbroken ": ".toList := by decide
  have rest {type : List Char} (unbroken : IsUnbroken type) := (((var.append unbroken).append colon).append id).closed
  obtain ⟨id, domain, range⟩ := v
  cases range with
  | none => exact rest domain.unbroken
  | some r =>
    cases domain with
    | bool => exact rest (Domain.unbroken .bool)
    | int => exact rest (((r.min.unbroken .int).append dots).append (r.max.unbroken .int))
    | float => exact rest (((r.min.unbroken .float).append dots).append (r.max.unbroken .float))

theorem Constraint.isLine {c : Constraint} (id : IsUnbroken c.id.toList) : IsLine c.line := by
  have word : IsUnbroken "constraint ".toList := by decide
  have colon : IsUnbroken ": ".toList := by decide
  exact (((word.append id).append colon).append (.oneLine c.expression.toList)).closed

theorem Goal.isLine (g : Goal) : IsLine g.line := by
  have word : IsUnbroken "solve ".toList := by decide
  have kind (k : GoalKind) : IsUnbroken k.name.toList := by
    cases k <;> decide
  have space : IsUnbroken [' '] := by decide
  obtain ⟨k, expression⟩ := g
  cases expression with
  | none => exact ((word.append (kind k)).append (.ofDark (by simp))).closed
  | some e => exact ((word.append (kind k)).append (space.append (.oneLine e.toList))).closed

namespace Statement

theorem textOfParameter (p : Parameter) : (parameters [p]).text = p.line := by simp [text, lines]

theorem textOfUnknown (v : Variable) : (unknowns [v]).text = v.line := by simp [text, lines]

theorem textOfConstraint (c : Constraint) : (constraints [c]).text = c.line := by simp [text, lines]

theorem textOfGoal (g : Goal) : (Statement.goal g).text = g.line := by simp [text, lines]

theorem Faithful.isLine {s : Statement} (faithful : s.Faithful) : IsLine s.text := by
  cases faithful with
  | @parameter p valid => exact textOfParameter p ▸ Parameter.isLine valid.name.unbroken
  | @unknown v valid => exact textOfUnknown v ▸ Variable.isLine valid.name.unbroken
  | @constraint c valid => exact textOfConstraint c ▸ Constraint.isLine valid.name.unbroken
  | @goal g valid => exact textOfGoal g ▸ g.isLine

end Statement

namespace Model

theorem linesOfDocument {m : Model} (each : ∀ s ∈ m.statements, IsLine s.text) :
    Text.lines m.document = m.statements.map Statement.text ++ [[]] := by
  have written : m.document = Text.ended (m.statements.map Statement.text) := by
    rw [document, Text.ended, List.flatMap_map]
  rw [written, Text.linesOfWritten]
  intro cs member
  obtain ⟨s, inside, rfl⟩ := List.mem_map.mp member
  exact each s inside

theorem linesOfValid {m : Model} (valid : m.Valid) :
    Text.lines m.document = m.statements.map Statement.text ++ [[]] :=
  linesOfDocument fun _ member => (valid.faithful member).isLine

end Model

theorem oneStatementALine {v : Json} {m : Model} (accepted : Model.ofJson v = .ok m) :
    Text.lines m.document = m.statements.map Statement.text ++ [[]]
      ∧ ∀ k < m.statements.length, (Text.lines m.document)[k]? = m.statements[k]?.map Statement.text := by
  have lines := Model.linesOfValid (Model.acceptedOfJson accepted).valid
  refine ⟨lines, fun k inside => ?_⟩
  rw [lines, List.getElem?_append_left (by simpa using inside), List.getElem?_map]

theorem brokenExpressionOnOneLine :
    Model.ofJson (.object [("constraints",
        .array [.object [("id", .string "c1"), ("expression", .string "x >\r\n\t1 \x0c\n")]])])
      = .ok ⟨[], [], [⟨"c1", "x >\r\n\t1 \x0c\n"⟩], none⟩
      ∧ Text.lines (Model.document ⟨[], [], [⟨"c1", "x >\r\n\t1 \x0c\n"⟩], none⟩)
        = ["constraint c1: x > 1;".toList, []] := by
  have accepted : Model.ofJson (.object [("constraints",
      .array [.object [("id", .string "c1"), ("expression", .string "x >\r\n\t1 \x0c\n")]])])
      = .ok ⟨[], [], [⟨"c1", "x >\r\n\t1 \x0c\n"⟩], none⟩ := okOfToOption (by decide +kernel)
  refine ⟨accepted, (oneStatementALine accepted).1.trans ?_⟩
  decide +kernel

end ConstraintDesk
