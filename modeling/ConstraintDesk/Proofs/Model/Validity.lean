import ConstraintDesk.Model.Validity
import Mathlib

/-! What the items of a model without a flaw are like. -/
namespace ConstraintDesk

structure IsName (id : String) : Prop where
  notEmpty : id.toList ≠ []
  dark : ∀ c ∈ id.toList, Text.isBlank c = false
  free : ∀ c ∈ id.toList, isReserved c = false

theorem idFlawNone {id : String} : idFlaw? id = none ↔ IsName id := by
  unfold idFlaw?
  constructor
  · intro flawless
    split at flawless
    · cases flawless
    · next filled =>
      split at flawless
      · cases flawless
      · next clean =>
        simp only [List.any_eq_true, not_exists, not_and, Bool.or_eq_true, not_or, Bool.not_eq_true] at clean
        exact ⟨by simpa using filled, fun c member => (clean c member).1, fun c member => (clean c member).2⟩
  · intro name
    have clean : ¬ id.toList.any (fun c => Text.isBlank c || isReserved c) := by
      simp only [List.any_eq_true, not_exists, not_and]
      intro c member
      simp [name.dark c member, name.free c member]
    rw [if_neg (by simpa using name.notEmpty), if_neg clean]

structure IsExpression (expression : String) : Prop where
  dark : Text.trim expression.toList ≠ []
  uncommented : '%' ∉ expression.toList

theorem expressionFlawNone {expression : String} :
    expressionFlaw? expression = none ↔ IsExpression expression := by
  unfold expressionFlaw?
  constructor
  · intro flawless
    split at flawless
    · cases flawless
    · next filled =>
      split at flawless
      · cases flawless
      · next clean => exact ⟨by simpa using filled, by simpa using clean⟩
  · intro valid
    rw [if_neg (by simpa using valid.dark), if_neg (by simpa using valid.uncommented)]

namespace Bounds

structure Fits (range : Bounds) (domain : Domain) : Prop where
  numeric : domain ≠ .bool
  min : range.min.fits domain = true
  max : range.max.fits domain = true

theorem flawNone {domain : Domain} {range : Bounds} : flaw? domain range = none ↔ range.Fits domain := by
  unfold flaw?
  constructor
  · intro flawless
    split at flawless
    · cases flawless
    · next numeric =>
      split at flawless
      · next fits =>
        rw [Bool.and_eq_true] at fits
        exact ⟨numeric, fits.1, fits.2⟩
      · cases flawless
  · intro fits
    rw [if_neg fits.numeric, if_pos (by rw [fits.min, fits.max]; rfl)]

end Bounds

structure Parameter.Valid (p : Parameter) : Prop where
  name : IsName p.id
  fits : p.value.fits p.domain = true

structure Variable.Valid (v : Variable) : Prop where
  name : IsName v.id
  range : ∀ r, v.range = some r → r.Fits v.domain

structure Constraint.Valid (c : Constraint) : Prop where
  name : IsName c.id
  expression : IsExpression c.expression

inductive Goal.Valid : Goal → Prop
  | satisfy : Goal.Valid ⟨.satisfy, none⟩
  | directed {kind : GoalKind} {expression : String} (objective : kind ≠ .satisfy)
      (valid : IsExpression expression) : Goal.Valid ⟨kind, some expression⟩

theorem Parameter.flawNone {p : Parameter} : p.flaw? = none ↔ p.Valid := by
  rw [flaw?, Option.or_eq_none_iff, idFlawNone]
  constructor
  · rintro ⟨name, fits⟩
    refine ⟨name, ?_⟩
    by_contra other
    simp [other] at fits
  · exact fun valid => ⟨valid.name, by rw [if_pos valid.fits]⟩

theorem Variable.flawNone {v : Variable} : v.flaw? = none ↔ v.Valid := by
  rw [flaw?, Option.or_eq_none_iff, idFlawNone, Option.bind_eq_none_iff]
  constructor
  · exact fun ⟨name, range⟩ => ⟨name, fun r same => Bounds.flawNone.mp (range r same)⟩
  · exact fun valid => ⟨valid.name, fun r same => Bounds.flawNone.mpr (valid.range r same)⟩

theorem Constraint.flawNone {c : Constraint} : c.flaw? = none ↔ c.Valid := by
  rw [flaw?, Option.or_eq_none_iff, idFlawNone, expressionFlawNone]
  exact ⟨fun ⟨name, expression⟩ => ⟨name, expression⟩, fun valid => ⟨valid.name, valid.expression⟩⟩

theorem Goal.flawNone {g : Goal} : g.flaw? = none ↔ g.Valid := by
  constructor
  · intro flawless
    obtain ⟨kind, expression⟩ := g
    cases kind with
    | satisfy =>
      cases expression with
      | none => exact .satisfy
      | some e => cases flawless
    | minimize =>
      cases expression with
      | none => cases flawless
      | some e => exact .directed (by decide) (expressionFlawNone.mp flawless)
    | maximize =>
      cases expression with
      | none => cases flawless
      | some e => exact .directed (by decide) (expressionFlawNone.mp flawless)
  · intro valid
    cases valid with
    | satisfy => rfl
    | @directed kind expression objective valid =>
      cases kind with
      | satisfy => exact absurd rfl objective
      | minimize => exact expressionFlawNone.mpr valid
      | maximize => exact expressionFlawNone.mpr valid

namespace Model

structure Valid (m : Model) : Prop where
  parameters : ∀ p ∈ m.parameters, p.Valid
  unknowns : ∀ v ∈ m.unknowns, v.Valid
  constraints : ∀ c ∈ m.constraints, c.Valid
  goal : ∀ g, m.goal = some g → g.Valid

theorem invalidNone {m : Model} : m.invalid? = none ↔ m.Valid := by
  simp only [invalid?, Option.or_eq_none_iff, List.findSome?_eq_none_iff, Option.map_eq_none_iff,
    Option.bind_eq_none_iff, Parameter.flawNone, Variable.flawNone, Constraint.flawNone, Goal.flawNone]
  constructor
  · rintro ⟨⟨⟨parameters, unknowns⟩, constraints⟩, goal⟩
    exact ⟨parameters, unknowns, constraints, goal⟩
  · exact fun valid => ⟨⟨⟨valid.parameters, valid.unknowns⟩, valid.constraints⟩, valid.goal⟩

end Model

inductive Statement.Faithful : Statement → Prop
  | parameter {p : Parameter} (valid : p.Valid) : Statement.Faithful (.parameters [p])
  | unknown {v : Variable} (valid : v.Valid) : Statement.Faithful (.unknowns [v])
  | constraint {c : Constraint} (valid : c.Valid) : Statement.Faithful (.constraints [c])
  | goal {g : Goal} (valid : g.Valid) : Statement.Faithful (.goal g)

theorem Model.memberOfStatements {m : Model} {s : Statement} :
    s ∈ m.statements ↔ (∃ p ∈ m.parameters, s = .parameters [p]) ∨ (∃ v ∈ m.unknowns, s = .unknowns [v])
      ∨ (∃ c ∈ m.constraints, s = .constraints [c]) ∨ ∃ g, m.goal = some g ∧ s = .goal g := by
  simp only [statements, List.mem_append, List.mem_map, Option.mem_toList, or_assoc, eq_comm (a := s)]

theorem Model.Valid.faithful {m : Model} (valid : m.Valid) {s : Statement} (member : s ∈ m.statements) :
    s.Faithful := by
  rcases memberOfStatements.mp member with ⟨p, inside, rfl⟩ | ⟨v, inside, rfl⟩ | ⟨c, inside, rfl⟩ | ⟨g, found, rfl⟩
  · exact .parameter (valid.parameters p inside)
  · exact .unknown (valid.unknowns v inside)
  · exact .constraint (valid.constraints c inside)
  · exact .goal (valid.goal g found)

end ConstraintDesk
