import ConstraintDesk.Decode.Record
import Mathlib

/-! What a successful reading of typed data says of its parts. -/
namespace ConstraintDesk

theorem okOfBind {ε α β : Type} {x : Except ε α} {f : α → Except ε β} {b : β} (h : x >>= f = .ok b) :
    ∃ a, x = .ok a ∧ f a = .ok b := by
  cases x with
  | error e => cases h
  | ok a => exact ⟨a, rfl, h⟩

theorem okOfMap {ε α β : Type} {x : Except ε α} {f : α → β} {b : β} (h : x.map f = .ok b) :
    ∃ a, x = .ok a ∧ f a = b := by
  cases x with
  | error e => cases h
  | ok a => exact ⟨a, rfl, Except.ok.inj h⟩

theorem okOfToOption {ε α : Type} {x : Except ε α} {a : α} (h : x.toOption = some a) : x = .ok a := by
  cases x with
  | error e => cases h
  | ok b => exact congrArg Except.ok (Option.some.inj h)

theorem mapMMember {ε α β : Type} {f : α → Except ε β} {xs : List α} {ys : List β}
    (h : xs.mapM f = .ok ys) : ∀ y ∈ ys, ∃ x ∈ xs, f x = .ok y := by
  induction xs generalizing ys with
  | nil =>
    cases h
    simp
  | cons x xs ih =>
    rw [List.mapM_cons] at h
    obtain ⟨y, first, h⟩ := okOfBind h
    obtain ⟨rest, later, h⟩ := okOfBind h
    cases h
    intro z member
    rcases List.mem_cons.mp member with rfl | inside
    · exact ⟨x, by simp, first⟩
    · obtain ⟨w, there, read⟩ := ih later z inside
      exact ⟨w, by simp [there], read⟩

theorem mapMEach {ε α β : Type} {f : α → Except ε β} {xs : List α} {ys : List β}
    (h : xs.mapM f = .ok ys) : ∀ x ∈ xs, ∃ y, f x = .ok y := by
  induction xs generalizing ys with
  | nil => simp
  | cons x xs ih =>
    rw [List.mapM_cons] at h
    obtain ⟨y, first, h⟩ := okOfBind h
    obtain ⟨rest, later, -⟩ := okOfBind h
    intro z member
    rcases List.mem_cons.mp member with rfl | inside
    · exact ⟨y, first⟩
    · exact ih later z inside

theorem mapMMap {ε α β : Type} {f : β → Except ε α} {g : α → β} {xs : List α}
    (each : ∀ x ∈ xs, f (g x) = .ok x) : (xs.map g).mapM f = .ok xs := by
  induction xs with
  | nil => rfl
  | cons x xs ih =>
    rw [List.map_cons, List.mapM_cons, each x (by simp), ih fun y member => each y (by simp [member])]
    rfl

theorem Json.fieldAppend (key : String) (front back : List (String × Json)) :
    field? key (front ++ back) = (field? key front).or (field? key back) := by
  induction front with
  | nil => rfl
  | cons entry front ih =>
    obtain ⟨k, v⟩ := entry
    simp only [List.cons_append, field?]
    split
    · rfl
    · exact ih

namespace Decode

theorem onlyOk {α : Type} {d : Decoder α} {v : Json} {a : α} (h : d v = .ok a) : only d v = .ok () := by
  rw [only, h]
  rfl

theorem listMap {α : Type} {d : Decoder α} {f : α → Json} {items : List α}
    (each : ∀ a ∈ items, d (f a) = .ok a) : list d (.array (items.map f)) = .ok items := mapMMap each

theorem listEach {α : Type} {d : Decoder α} {f : α → Json} {items read : List α}
    (h : list d (.array (items.map f)) = .ok read) : ∀ a ∈ items, ∃ b, d (f a) = .ok b := fun _ member =>
  mapMEach h _ (List.mem_map_of_mem member)

theorem listMember {α : Type} {d : Decoder α} {v : Json} {items : List α} (h : list d v = .ok items) :
    ∀ a ∈ items, ∃ w, d w = .ok a := by
  unfold list at h
  split at h
  · intro a member
    obtain ⟨w, -, read⟩ := mapMMember h a member
    exact ⟨w, read⟩
  · cases h

theorem optionOfObject {α : Type} {d : Decoder α} {fields : List (String × Json)} {a : α}
    (h : d (.object fields) = .ok a) : option d (.object fields) = .ok (some a) := by
  have there : option d (.object fields) = (d (.object fields)).map some := rfl
  rw [there, h]
  rfl

theorem optionSome {α : Type} {d : Decoder α} {v : Json} {a : α} (h : option d v = .ok (some a)) :
    ∃ w, d w = .ok a := by
  unfold option at h
  split at h
  · cases h
  · obtain ⟨b, read, same⟩ := okOfMap h
    exact ⟨v, Option.some.inj same ▸ read⟩

namespace Parts

theorem requiredOk {α : Type} {p : Parts} {name : String} {d : Decoder α} {a : α}
    (h : p.required name d = .ok a) : ∃ v, d v = .ok a := by
  unfold required at h
  split at h
  · next v _ => exact ⟨v, h⟩
  · cases h

theorem optionalOk {α : Type} {p : Parts} {name : String} {d : Decoder α} {default a : α}
    (h : p.optional name d default = .ok a) : a = default ∨ ∃ v, d v = .ok a := by
  unfold optional at h
  split at h
  · next v _ => exact Or.inr ⟨v, h⟩
  · exact Or.inl (Except.ok.inj h).symm

theorem verifyOk {p : Parts} {checks : List (String × Decoder Unit)}
    (each : ∀ k v, (k, v) ∈ p.entries → ∀ check, checks.lookup k = some check → check v = .ok ()) :
    p.verify checks = .ok () := by
  unfold verify
  generalize p.entries = entries at each
  induction entries with
  | nil => rfl
  | cons entry entries ih =>
    obtain ⟨k, v⟩ := entry
    have later := ih fun k v member => each k v (by simp [member])
    have now := each k v (by simp)
    simp only [List.forM_eq_forM, List.forM_cons] at later ⊢
    cases found : checks.lookup k with
    | none => exact later
    | some check =>
      simp only [now check found]
      exact later

theorem finishOk {α : Type} {p : Parts} {a b : α} (h : p.finish a = .ok b) : a = b := by
  unfold finish at h
  split at h
  · cases h
  · exact Except.ok.inj h

end Parts
end Decode
end ConstraintDesk
