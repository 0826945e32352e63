import ConstraintDesk.Model.Encoding
import ConstraintDesk.Proofs.Decimal.Values
import ConstraintDesk.Proofs.Decode.Record
import ConstraintDesk.Proofs.Model.Validity

/-! Models and the values that stand for them. Whatever is read from a value has finite literals, and a
model with finite literals is read back from its own value. -/
namespace ConstraintDesk

open Decode

def Literal.IsFinite : Literal → Prop
  | .float x => x.isFinite = true
  | _ => True

structure Bounds.IsFinite (range : Bounds) : Prop where
  min : range.min.IsFinite
  max : range.max.IsFinite

def Variable.IsFinite (v : Variable) : Prop := ∀ r, v.range = some r → r.IsFinite

structure Model.IsFinite (m : Model) : Prop where
  parameters : ∀ p ∈ m.parameters, p.value.IsFinite
  unknowns : ∀ v ∈ m.unknowns, v.IsFinite

theorem Literal.finiteOfJson {v : Json} {l : Literal} (h : ofJson v = .ok l) : l.IsFinite := by
  unfold ofJson at h
  split at h
  · cases h
    trivial
  · next i least greatest =>
    split at h
    · cases h
      trivial
    · cases h
      exact Binary64.ofIntFinite (by omega)
  · next x finite =>
    cases h
    exact finite
  · cases h

theorem Bounds.finiteOfJson {v : Json} {r : Bounds} (h : ofJson v = .ok r) : r.IsFinite := by
  obtain ⟨parts, -, h⟩ := okOfBind h
  obtain ⟨-, -, h⟩ := okOfBind h
  obtain ⟨min, readMin, h⟩ := okOfBind h
  obtain ⟨max, readMax, h⟩ := okOfBind h
  obtain ⟨_, low⟩ := Parts.requiredOk readMin
  obtain ⟨_, high⟩ := Parts.requiredOk readMax
  exact Parts.finishOk h ▸ ⟨Literal.finiteOfJson low, Literal.finiteOfJson high⟩

theorem Parameter.finiteOfJson {v : Json} {p : Parameter} (h : ofJson v = .ok p) : p.value.IsFinite := by
  obtain ⟨parts, -, h⟩ := okOfBind h
  obtain ⟨-, -, h⟩ := okOfBind h
  obtain ⟨id, -, h⟩ := okOfBind h
  obtain ⟨domain, -, h⟩ := okOfBind h
  obtain ⟨value, read, h⟩ := okOfBind h
  obtain ⟨_, literal⟩ := Parts.requiredOk read
  exact Parts.finishOk h ▸ Literal.finiteOfJson literal

theorem Variable.finiteOfJson {v : Json} {x : Variable} (h : ofJson v = .ok x) : x.IsFinite := by
  obtain ⟨parts, -, h⟩ := okOfBind h
  obtain ⟨-, -, h⟩ := okOfBind h
  obtain ⟨id, -, h⟩ := okOfBind h
  obtain ⟨domain, -, h⟩ := okOfBind h
  obtain ⟨range, read, h⟩ := okOfBind h
  cases Parts.finishOk h
  rintro r rfl
  rcases Parts.optionalOk read with impossible | ⟨_, range⟩
  · cases impossible
  · obtain ⟨_, bounds⟩ := optionSome range
    exact Bounds.finiteOfJson bounds

theorem Domain.readBack (d : Domain) : ofJson d.toJson = .ok d := by cases d <;> rfl

theorem GoalKind.readBack (k : GoalKind) : ofJson k.toJson = .ok k := by cases k <;> rfl

theorem Decode.textOfString (s : String) : Decode.text (.string s) = .ok s := rfl

theorem Literal.readBack {l : Literal} (finite : l.IsFinite) : ofJson l.toJson = .ok l := by
  cases l with
  | bool b => rfl
  | int i =>
    have low : -2 ^ 63 ≤ i.toInt := i.le_toInt
    have high : i.toInt < 2 ^ 63 := i.toInt_lt
    have range : -2 ^ 63 ≤ i.toInt ∧ i.toInt < 2 ^ 64 := ⟨low, by omega⟩
    simp only [toJson, Json.ofInt, range, and_self, dif_pos, ofJson, high, if_true, Int64.ofInt_toInt]
  | float x =>
    have finite : x.isFinite = true := finite
    simp only [toJson, Json.ofBinary64, finite, dif_pos, ofJson]

theorem Literal.finiteOfRead {l n : Literal} (h : ofJson l.toJson = .ok n) : l.IsFinite := by
  cases l with
  | bool b => trivial
  | int i => trivial
  | float x =>
    -- Infinity is written as null, and null is no literal.
    by_contra infinite
    have infinite : ¬ x.isFinite = true := infinite
    simp only [toJson, Json.ofBinary64, dif_neg infinite, ofJson] at h
    cases h

theorem Bounds.finiteOfRead {r s : Bounds} (h : ofJson r.toJson = .ok s) : r.IsFinite := by
  obtain ⟨parts, same, h⟩ := okOfBind h
  cases same
  obtain ⟨-, -, h⟩ := okOfBind h
  obtain ⟨min, readMin, h⟩ := okOfBind h
  obtain ⟨max, readMax, h⟩ := okOfBind h
  exact ⟨Literal.finiteOfRead readMin, Literal.finiteOfRead readMax⟩

theorem Parameter.finiteOfRead {p q : Parameter} (h : ofJson p.toJson = .ok q) : p.value.IsFinite := by
  obtain ⟨parts, same, h⟩ := okOfBind h
  cases same
  obtain ⟨-, -, h⟩ := okOfBind h
  obtain ⟨id, -, h⟩ := okOfBind h
  obtain ⟨domain, -, h⟩ := okOfBind h
  obtain ⟨value, read, h⟩ := okOfBind h
  exact Literal.finiteOfRead read

theorem Variable.finiteOfRead {v w : Variable} (h : ofJson v.toJson = .ok w) : v.IsFinite := by
  obtain ⟨id, domain, range⟩ := v
  rintro r rfl
  obtain ⟨parts, same, h⟩ := okOfBind h
  cases same
  obtain ⟨-, -, h⟩ := okOfBind h
  obtain ⟨id, -, h⟩ := okOfBind h
  obtain ⟨domain, -, h⟩ := okOfBind h
  obtain ⟨range, read, h⟩ := okOfBind h
  obtain ⟨bounds, inside, -⟩ := okOfMap (read : (Bounds.ofJson r.toJson).map some = .ok range)
  exact Bounds.finiteOfRead inside

theorem Bounds.readBack {r : Bounds} (finite : r.IsFinite) : ofJson r.toJson = .ok r := by
  have min := Literal.readBack finite.min
  have max := Literal.readBack finite.max
  simp [ofJson, toJson, Parts.of, Parts.ofObject, Parts.verify, Parts.required, Parts.finish, Json.field?,
    List.lookup, onlyOk min, onlyOk max, min, max, bind, Except.bind, pure, Except.pure]

theorem Parameter.readBack {p : Parameter} (finite : p.value.IsFinite) : ofJson p.toJson = .ok p := by
  have id := textOfString p.id
  have domain := p.domain.readBack
  have value := Literal.readBack finite
  simp [ofJson, toJson, Parts.of, Parts.ofObject, Parts.verify, Parts.required, Parts.finish, Json.field?,
    List.lookup, onlyOk id, onlyOk domain, onlyOk value, id, domain, value, bind, Except.bind, pure, Except.pure]

theorem Variable.readBack {v : Variable} (finite : v.IsFinite) : ofJson v.toJson = .ok v := by
  obtain ⟨id, domain, range⟩ := v
  have name := textOfString id
  have type := domain.readBack
  cases range with
  | none =>
    simp [ofJson, toJson, Parts.of, Parts.ofObject, Parts.verify, Parts.required, Parts.optional, Parts.finish,
      Json.field?, List.lookup, onlyOk name, onlyOk type, name, type, bind, Except.bind, pure, Except.pure]
  | some r =>
    have bounds : option Bounds.ofJson r.toJson = .ok (some r) := optionOfObject (Bounds.readBack (finite r rfl))
    simp [ofJson, toJson, Parts.of, Parts.ofObject, Parts.verify, Parts.required, Parts.optional, Parts.finish,
      Json.field?, List.lookup, onlyOk name, onlyOk type, onlyOk bounds, name, type, bounds, bind, Except.bind,
      pure, Except.pure]

theorem Constraint.readBack (c : Constraint) : ofJson c.toJson = .ok c := by
  have id := textOfString c.id
  have expression := textOfString c.expression
  simp [ofJson, toJson, Parts.of, Parts.ofObject, Parts.verify, Parts.required, Parts.finish, Json.field?,
    List.lookup, onlyOk id, onlyOk expression, id, expression, bind, Except.bind, pure, Except.pure]

theorem Goal.readBack (g : Goal) : ofJson g.toJson = .ok g := by
  obtain ⟨kind, expression⟩ := g
  have name := kind.readBack
  cases expression with
  | none =>
    simp [ofJson, toJson, Parts.of, Parts.ofObject, Parts.verify, Parts.required, Parts.optional, Parts.finish,
      Json.field?, List.lookup, onlyOk name, name, bind, Except.bind, pure, Except.pure]
  | some e =>
    have objective : option Decode.text (.string e) = .ok (some e) := rfl
    simp [ofJson, toJson, Parts.of, Parts.ofObject, Parts.verify, Parts.required, Parts.optional, Parts.finish,
      Json.field?, List.lookup, onlyOk name, onlyOk objective, name, objective, bind, Except.bind, pure, Except.pure]

namespace Model

theorem entryOfList {α : Type} {name k : String} {f : α → Json} {items : List α} {v : Json}
    (member : (k, v) ∈ listField name f items) : k = name ∧ v = .array (items.map f) := by
  unfold listField at member
  split at member
  · cases member
  · simpa using member

theorem fieldOfList {α : Type} (name : String) (f : α → Json) (items : List α) (key : String) :
    Json.field? key (listField name f items)
      = if items.isEmpty then none else if name = key then some (.array (items.map f)) else none := by
  unfold listField
  split
  · rfl
  · rfl

theorem optionalList {α : Type} {p : Parts} {name : String} {d : Decoder α} {f : α → Json} {items : List α}
    (each : ∀ a ∈ items, d (f a) = .ok a)
    (found : Json.field? name p.entries = Json.field? name (listField name f items)) :
    p.optional name (list d) [] = .ok items := by
  rw [Parts.optional, found, fieldOfList]
  cases items with
  | nil => rfl
  | cons a items =>
    rw [if_neg (by simp), if_pos rfl]
    exact listMap each

theorem optionalEach {α : Type} {p : Parts} {name : String} {d : Decoder α} {f : α → Json} {items read : List α}
    (h : p.optional name (list d) [] = .ok read)
    (found : Json.field? name p.entries = Json.field? name (listField name f items)) :
    ∀ a ∈ items, ∃ b, d (f a) = .ok b := by
  rw [Parts.optional, found, fieldOfList] at h
  cases items with
  | nil => simp
  | cons a items =>
    rw [if_neg (by simp), if_pos rfl] at h
    exact listEach h

theorem finiteOfDecode {v : Json} {m : Model} (h : decode v = .ok m) : m.IsFinite := by
  obtain ⟨parts, -, h⟩ := okOfBind h
  obtain ⟨-, -, h⟩ := okOfBind h
  obtain ⟨parameters, readParameters, h⟩ := okOfBind h
  obtain ⟨unknowns, readUnknowns, h⟩ := okOfBind h
  obtain ⟨constraints, -, h⟩ := okOfBind h
  obtain ⟨goal, -, h⟩ := okOfBind h
  cases Parts.finishOk h
  constructor
  · intro p member
    rcases Parts.optionalOk readParameters with rfl | ⟨_, items⟩
    · cases member
    · obtain ⟨_, read⟩ := listMember items p member
      exact Parameter.finiteOfJson read
  · intro x member
    rcases Parts.optionalOk readUnknowns with rfl | ⟨_, items⟩
    · cases member
    · obtain ⟨_, read⟩ := listMember items x member
      exact Variable.finiteOfJson read

def fields (m : Model) : List (String × Json) :=
  listField "parameters" Parameter.toJson m.parameters ++ listField "variables" Variable.toJson m.unknowns
    ++ listField "constraints" Constraint.toJson m.constraints
    ++ (m.goal.map fun g => ("goal", g.toJson)).toList

theorem fieldsVerify {m : Model} (finite : m.IsFinite) :
    (Parts.ofObject m.fields).verify
      [("parameters", only (list Parameter.ofJson)), ("variables", only (list Variable.ofJson)),
       ("constraints", only (list Constraint.ofJson)), ("goal", only (option Goal.ofJson))] = .ok () := by
  refine Parts.verifyOk fun k v member check found => ?_
  simp only [Parts.ofObject, fields, List.mem_append] at member
  rcases member with ((inside | inside) | inside) | inside
  · obtain ⟨rfl, rfl⟩ := entryOfList inside
    cases found
    exact onlyOk (listMap fun p member => Parameter.readBack (finite.parameters p member))
  · obtain ⟨rfl, rfl⟩ := entryOfList inside
    cases found
    exact onlyOk (listMap fun v member => Variable.readBack (finite.unknowns v member))
  · obtain ⟨rfl, rfl⟩ := entryOfList inside
    cases found
    exact onlyOk (listMap fun c _ => c.readBack)
  · cases same : m.goal with
    | none => simp [same] at inside
    | some g =>
      simp only [same, Option.map_some, Option.toList_some, List.mem_singleton, Prod.mk.injEq] at inside
      obtain ⟨rfl, rfl⟩ := inside
      cases found
      exact onlyOk (optionOfObject g.readBack)

theorem fieldOfGoal (g : Option Goal) (key : String) :
    Json.field? key (g.map fun g => ("goal", g.toJson)).toList
      = if "goal" = key then g.map Goal.toJson else none := by
  cases g with
  | none => simp [Json.field?]
  | some g => rfl

theorem fieldParameters (m : Model) : Json.field? "parameters" (Parts.ofObject m.fields).entries
    = Json.field? "parameters" (listField "parameters" Parameter.toJson m.parameters) := by
  simp [Parts.ofObject, fields, Json.fieldAppend, fieldOfList, fieldOfGoal]

theorem fieldUnknowns (m : Model) : Json.field? "variables" (Parts.ofObject m.fields).entries
    = Json.field? "variables" (listField "variables" Variable.toJson m.unknowns) := by
  simp [Parts.ofObject, fields, Json.fieldAppend, fieldOfList, fieldOfGoal]

theorem fieldConstraints (m : Model) : Json.field? "constraints" (Parts.ofObject m.fields).entries
    = Json.field? "constraints" (listField "constraints" Constraint.toJson m.constraints) := by
  simp [Parts.ofObject, fields, Json.fieldAppend, fieldOfList, fieldOfGoal]

theorem decodeToJson {m : Model} (finite : m.IsFinite) : decode m.toJson = .ok m := by
  have parameters : (Parts.ofObject m.fields).optional "parameters" (list Parameter.ofJson) []
      = .ok m.parameters :=
    optionalList (fun p member => Parameter.readBack (finite.parameters p member)) m.fieldParameters
  have unknowns : (Parts.ofObject m.fields).optional "variables" (list Variable.ofJson) []
      = .ok m.unknowns :=
    optionalList (fun v member => Variable.readBack (finite.unknowns v member)) m.fieldUnknowns
  have constraints : (Parts.ofObject m.fields).optional "constraints" (list Constraint.ofJson) []
      = .ok m.constraints := optionalList (fun c _ => c.readBack) m.fieldConstraints
  have goal : (Parts.ofObject m.fields).optional "goal" (option Goal.ofJson) none = .ok m.goal := by
    simp only [Parts.optional, Parts.ofObject, fields, Json.fieldAppend, fieldOfList, fieldOfGoal]
    cases m.goal with
    | none => simp
    | some g =>
      have read : option Goal.ofJson g.toJson = .ok (some g) := optionOfObject g.readBack
      simpa using read
  have parts : Parts.of "CspModel" ["parameters", "variables", "constraints", "goal"] m.toJson
      = .ok (Parts.ofObject m.fields) := rfl
  rw [decode, parts]
  simp only [bind, Except.bind, fieldsVerify finite, parameters, unknowns, constraints, goal]
  rfl

theorem finiteOfRead {m n : Model} (h : decode m.toJson = .ok n) : m.IsFinite := by
  obtain ⟨parts, same, h⟩ := okOfBind h
  cases same
  obtain ⟨-, -, h⟩ := okOfBind h
  obtain ⟨parameters, readParameters, h⟩ := okOfBind h
  obtain ⟨unknowns, readUnknowns, h⟩ := okOfBind h
  constructor
  · intro p member
    obtain ⟨_, read⟩ := optionalEach readParameters m.fieldParameters p member
    exact Parameter.finiteOfRead read
  · intro x member
    obtain ⟨_, read⟩ := optionalEach readUnknowns m.fieldUnknowns x member
    exact Variable.finiteOfRead read

theorem ofJsonEq (m : Model) : ofJson m.toJson = match decode m.toJson with
    | .error e => .error (.shape e)
    | .ok n => n.validate := rfl

theorem ofJsonToJson {m : Model} (finite : m.IsFinite) : ofJson m.toJson = m.validate := by
  rw [ofJsonEq, decodeToJson finite]

structure Accepted (m : Model) : Prop where
  valid : m.Valid
  finite : m.IsFinite

theorem validateOk {m n : Model} (h : m.validate = .ok n) : m = n ∧ m.Valid := by
  unfold validate at h
  split at h
  · cases h
  · next flawless => exact ⟨Except.ok.inj h, invalidNone.mp flawless⟩

theorem acceptedOfJson {v : Json} {m : Model} (h : ofJson v = .ok m) : m.Accepted := by
  unfold ofJson at h
  split at h
  · cases h
    exact ⟨invalidNone.mp rfl, by simp [empty], by simp [empty]⟩
  · split at h
    · cases h
    · next n read =>
      obtain ⟨rfl, valid⟩ := validateOk h
      exact ⟨valid, finiteOfDecode read⟩

theorem validateCases (m : Model) : m.validate = .ok m ∨ ∃ i, m.validate = .error (.invalid i) := by
  unfold validate
  cases m.invalid? with
  | none => exact Or.inl rfl
  | some i => exact Or.inr ⟨i, rfl⟩

theorem toJsonInjective {m n : Model} (finite : m.IsFinite) (same : n.toJson = m.toJson) : n = m := by
  have read : decode n.toJson = .ok m := same ▸ decodeToJson finite
  exact Except.ok.inj ((decodeToJson (finiteOfRead read)).symm.trans read)

theorem encodingIsExact {m : Model} (finite : m.IsFinite) :
    decode m.toJson = .ok m
      ∧ (∀ n : Model, n.toJson = m.toJson → n = m)
      ∧ (ofJson m.toJson = .ok m ↔ m.validate = .ok m)
      ∧ (m.validate ≠ .ok m → ∃ i, m.validate = .error (.invalid i) ∧ ofJson m.toJson = .error (.invalid i)) := by
  have checked := ofJsonToJson finite
  refine ⟨decodeToJson finite, fun n => toJsonInjective finite, by rw [checked], fun flawed => ?_⟩
  obtain ⟨i, invalid⟩ := m.validateCases.resolve_left flawed
  exact ⟨i, invalid, checked.trans invalid⟩

theorem wholeRateIsExact :
    ofJson (toJson ⟨[⟨"n", .int, .int 1⟩, ⟨"r", .float, .float (Binary64.ofInt 1)⟩], [⟨"x", .int, none⟩], [], none⟩)
      = .ok ⟨[⟨"n", .int, .int 1⟩, ⟨"r", .float, .float (Binary64.ofInt 1)⟩], [⟨"x", .int, none⟩], [], none⟩ := by
  have one : (Binary64.ofInt 1).isFinite = true := by decide +kernel
  have finite :
      IsFinite ⟨[⟨"n", .int, .int 1⟩, ⟨"r", .float, .float (Binary64.ofInt 1)⟩], [⟨"x", .int, none⟩], [], none⟩ := by
    constructor
    · intro p member
      rcases List.mem_pair.mp member with rfl | rfl
      · trivial
      · exact one
    · intro v member r range
      cases List.mem_singleton.mp member
      cases range
  obtain ⟨-, -, readBack, -⟩ := encodingIsExact finite
  exact readBack.mpr (okOfToOption (by decide +kernel))

end Model
end ConstraintDesk
