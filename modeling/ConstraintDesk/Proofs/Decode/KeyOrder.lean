import ConstraintDesk.Proofs.Decode.Record

/-! Values that differ in the order of their keys. A record is read from its fields by name, so what is read
of it, the reason of a failure apart, does not depend on that order. -/
namespace ConstraintDesk

namespace Json

mutual

/-- The same value but for the order of the keys of its objects, at any depth. No object has a key twice. -/
inductive Reordered : Json → Json → Prop
  | null : Reordered .null .null
  | bool (b : Bool) : Reordered (.bool b) (.bool b)
  | number (n : Number) : Reordered (.number n) (.number n)
  | string (s : String) : Reordered (.string s) (.string s)
  | array {items others : List Json} (each : List.Forall₂ Reordered items others) :
      Reordered (.array items) (.array others)
  | object {fields moved others : List (String × Json)} (distinct : (fields.map Prod.fst).Nodup)
      (order : fields.Perm moved) (each : List.Forall₂ SameKey moved others) :
      Reordered (.object fields) (.object others)

inductive SameKey : String × Json → String × Json → Prop
  | mk (key : String) {v w : Json} (same : Reordered v w) : SameKey (key, v) (key, w)

end

theorem fieldMoved {fields moved : List (String × Json)} (order : fields.Perm moved)
    (distinct : (fields.map Prod.fst).Nodup) (key : String) : field? key fields = field? key moved := by
  induction order with
  | nil => rfl
  | cons entry _ ih =>
    rw [List.map_cons, List.nodup_cons] at distinct
    rw [field?, field?, ih distinct.2]
  | swap first second rest =>
    simp only [List.map_cons, List.nodup_cons, List.mem_cons, not_or] at distinct
    simp only [field?]
    split
    · next own => rw [if_neg fun other => distinct.1.1 (own.trans other.symm)]
    · rfl
  | trans front _ ahead behind =>
    exact (ahead distinct).trans (behind ((front.map Prod.fst).nodup_iff.mp distinct))

theorem fieldOfSame {fields others : List (String × Json)} (each : List.Forall₂ SameKey fields others) (key : String) :
    Option.Rel Reordered (field? key fields) (field? key others) := by
  induction each with
  | nil => exact .none
  | cons one _ ih =>
    obtain ⟨own, same⟩ := one
    simp only [field?]
    split
    · exact .some same
    · exact ih

end Json

theorem bindAlike {ε α β : Type} {x y : Except ε α} {f g : α → Except ε β} (first : x.toOption = y.toOption)
    (second : ∀ a, (f a).toOption = (g a).toOption) : (x >>= f).toOption = (y >>= g).toOption := by
  cases x with
  | ok a =>
    obtain rfl := okOfToOption first.symm
    exact second a
  | error e =>
    cases y with
    | ok a => cases first
    | error e => rfl

theorem mapAlike {ε α β : Type} {x y : Except ε α} (f : α → β) (same : x.toOption = y.toOption) :
    (x.map f).toOption = (y.map f).toOption := bindAlike same fun _ => rfl

theorem mapErrorAlike {ε δ α : Type} (f : ε → δ) (x : Except ε α) : (x.mapError f).toOption = x.toOption := by
  cases x <;> rfl

theorem okAlike {ε α : Type} {x y : Except ε α} (same : x.toOption = y.toOption) (a : α) : x = .ok a ↔ y = .ok a := by
  constructor
  · rintro rfl
    exact okOfToOption same.symm
  · rintro rfl
    exact okOfToOption same

namespace Decode

/-- From values that differ in the order of keys the same is read, or nothing from either. -/
def IgnoresOrder {α : Type} (d : Decoder α) : Prop :=
  ∀ ⦃v w : Json⦄, v.Reordered w → (d v).toOption = (d w).toOption

namespace IgnoresOrder

variable {α : Type} {d : Decoder α}

theorem text : IgnoresOrder Decode.text := fun _ _ same => by cases same <;> rfl

theorem only (ignores : IgnoresOrder d) : IgnoresOrder (Decode.only d) := fun _ _ same => mapAlike _ (ignores same)

theorem option (ignores : IgnoresOrder d) : IgnoresOrder (Decode.option d) := by
  intro v w same
  have there {v : Json} (present : v ≠ .null) : Decode.option d v = (d v).map .some := by
    cases v with
    | null => exact absurd rfl present
    | _ => rfl
  by_cases isNull : v = .null
  · subst isNull
    cases same
    rfl
  · have other : w ≠ .null := by
      rintro rfl
      cases same
      exact isNull rfl
    rw [there isNull, there other]
    exact mapAlike _ (ignores same)

theorem list (ignores : IgnoresOrder d) : IgnoresOrder (Decode.list d) := by
  intro v w same
  cases same with
  | array each =>
    rename_i items others
    show (items.mapM d).toOption = (others.mapM d).toOption
    induction each with
    | nil => rfl
    | cons one _ ih =>
      rw [List.mapM_cons, List.mapM_cons]
      exact bindAlike (ignores one) fun _ => bindAlike ih fun _ => rfl
  | null | bool | number | string | object => rfl

theorem taggedMany {known : List String} {read : String → Option Json → Except Misfit α}
    {fields : List (String × Json)} (many : fields.length ≠ 1) :
    tagged known read (.object fields) = .error (.wrongValue .map "map with a single key") := by
  match fields, many with
  | [], _ => rfl
  | _ :: _ :: _, _ => rfl

theorem choice {all : List α} {name : α → String} : IgnoresOrder (Decode.choice all name) := by
  intro v w same
  cases same with
  | @object fields moved others _ order each =>
    have length : others.length = fields.length := each.length_eq.symm.trans order.length_eq.symm
    by_cases many : fields.length = 1
    · obtain ⟨entry, rfl⟩ := List.length_eq_one_iff.mp many
      obtain rfl := List.singleton_perm.mp order
      obtain ⟨_, rfl⟩ := List.length_eq_one_iff.mp (length.trans many)
      cases each with
      | cons one _ =>
        obtain ⟨key, same⟩ := one
        simp only [Decode.choice, tagged, tagged.check]
        split
        · cases same <;> cases all.find? (name · = key) <;> rfl
        · rfl
    · rw [Decode.choice, taggedMany many, taggedMany (length ▸ many)]
  | null | bool | number | string | array => rfl

end IgnoresOrder

namespace Parts

structure Same (p q : Parts) : Prop where
  field : ∀ name, Option.Rel Json.Reordered (Json.field? name p.entries) (Json.field? name q.entries)
  entries : ∃ moved, p.entries.Perm moved ∧ List.Forall₂ Json.SameKey moved q.entries
  surplus : p.surplus = q.surplus

theorem sameOfObject {fields moved others : List (String × Json)} (distinct : (fields.map Prod.fst).Nodup)
    (order : fields.Perm moved) (each : List.Forall₂ Json.SameKey moved others) :
    (ofObject fields).Same (ofObject others) where
  field name := by
    show Option.Rel _ (Json.field? name fields) (Json.field? name others)
    rw [Json.fieldMoved order distinct]
    exact Json.fieldOfSame each name
  entries := ⟨moved, order, each⟩
  surplus := rfl

theorem sameOfArray (title : String) (names : List String) {items others : List Json}
    (each : List.Forall₂ Json.Reordered items others) :
    (ofArray title names items).Same (ofArray title names others) := by
  have zipped : List.Forall₂ Json.SameKey (names.zip items) (names.zip others) := by
    induction each generalizing names with
    | nil => simp
    | cons one _ ih =>
      cases names with
      | nil => exact .nil
      | cons name names => exact .cons (.mk name one) (ih names)
  refine ⟨Json.fieldOfSame zipped, ⟨_, .refl _, zipped⟩, ?_⟩
  rw [ofArray, ofArray, each.length_eq]

section

variable {p q : Parts} {α : Type}

theorem alikeFound {d : Decoder α} (ignores : IgnoresOrder d) {left right : Option Json}
    (found : Option.Rel Json.Reordered left right) {a b : Except Misfit α} (absent : a.toOption = b.toOption) :
    (match left with | some v => d v | none => a).toOption = (match right with | some v => d v | none => b).toOption := by
  cases found with
  | some value => exact ignores value
  | none => exact absent

theorem Same.required (same : p.Same q) {name : String} {d : Decoder α} (ignores : IgnoresOrder d) :
    (p.required name d).toOption = (q.required name d).toOption := alikeFound ignores (same.field name) rfl

theorem Same.optional (same : p.Same q) {name : String} {d : Decoder α} (ignores : IgnoresOrder d) (default : α) :
    (p.optional name d default).toOption = (q.optional name d default).toOption :=
  alikeFound ignores (same.field name) rfl

theorem Same.finish (same : p.Same q) (a : α) : (p.finish a).toOption = (q.finish a).toOption := by
  rw [Parts.finish, Parts.finish, same.surplus]

end

def checked (checks : List (String × Decoder Unit)) (entry : String × Json) : Except Misfit Unit :=
  match checks.lookup entry.1 with
  | some check => check entry.2
  | none => .ok ()

theorem verifyIff {checks : List (String × Decoder Unit)} (p : Parts) :
    p.verify checks = .ok () ↔ ∀ entry ∈ p.entries, checked checks entry = .ok () := by
  have each : p.verify checks = forM p.entries (checked checks) := rfl
  rw [each]
  generalize p.entries = entries
  induction entries with
  | nil => exact iff_of_true rfl (by simp)
  | cons entry entries ih =>
    rw [List.forall_mem_cons, List.forM_cons]
    cases checked checks entry with
    | error e => exact iff_of_false (fun read => by cases read) (fun both => by cases both.1)
    | ok _ => exact ih.trans (and_iff_right rfl).symm

inductive Checks : List (String × Decoder Unit) → Prop
  | nil : Checks []
  | cons {α : Type} {name : String} {d : Decoder α} {rest : List (String × Decoder Unit)} (ignores : IgnoresOrder d)
      (others : Checks rest) : Checks ((name, only d) :: rest)

theorem Checks.alike {checks : List (String × Decoder Unit)} (all : Checks checks) {entry other : String × Json}
    (same : Json.SameKey entry other) : checked checks entry = .ok () ↔ checked checks other = .ok () := by
  obtain ⟨key, same⟩ := same
  induction all with
  | nil => rfl
  | @cons _ name d rest ignores _ ih =>
    unfold checked at ih ⊢
    simp only [List.lookup_cons]
    cases key == name with
    | true => exact okAlike (ignores.only same) ()
    | false => exact ih

theorem Same.verify {p q : Parts} (same : p.Same q) {checks : List (String × Decoder Unit)} (all : Checks checks) :
    (p.verify checks).toOption = (q.verify checks).toOption := by
  have both : p.verify checks = .ok () ↔ q.verify checks = .ok () := by
    obtain ⟨moved, order, each⟩ := same.entries
    rw [verifyIff, verifyIff]
    have first : (∀ entry ∈ p.entries, checked checks entry = .ok ()) ↔ ∀ entry ∈ moved, checked checks entry = .ok () :=
      forall_congr' fun entry => imp_congr_left order.mem_iff
    rw [first]
    generalize q.entries = others at each
    clear first order
    induction each with
    | nil => rfl
    | cons one _ ih =>
      rw [List.forall_mem_cons, List.forall_mem_cons]
      exact and_congr (all.alike one) ih
  cases left : p.verify checks with
  | ok _ => rw [both.mp left]
  | error e =>
    cases right : q.verify checks with
    | ok _ => cases left.symm.trans (both.mpr right)
    | error e => rfl

end Parts

theorem IgnoresOrder.record {α : Type} {title : String} {names : List String} {read : Parts → Except Misfit α}
    (ignores : ∀ {p q : Parts}, p.Same q → (read p).toOption = (read q).toOption) :
    IgnoresOrder fun v => Parts.of title names v >>= read := by
  intro v w same
  cases same with
  | array each => exact ignores (Parts.sameOfArray title names each)
  | object distinct order each => exact ignores (Parts.sameOfObject distinct order each)
  | null | bool | number | string => rfl

end Decode
end ConstraintDesk
