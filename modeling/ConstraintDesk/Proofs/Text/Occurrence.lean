import ConstraintDesk.Text.Basic
import Mathlib

/-! A text occurs where it is a stretch of another one. The last occurrence of a text, and occurrences in texts that
are put together. -/
namespace ConstraintDesk.Text

theorem dropPartAppend (part rest : List Char) : dropPart? part (part ++ rest) = some rest := by
  induction part with
  | nil => rfl
  | cons p part ih => simp [dropPart?, ih]

theorem dropPartApart {part back : List Char} (apart : part.Disjoint back) (cs : List Char) :
    dropPart? part (cs ++ back) = (dropPart? part cs).map (· ++ back) := by
  induction part generalizing cs with
  | nil => rfl
  | cons p part ih =>
    cases cs with
    | nil =>
      cases back with
      | nil => rfl
      | cons b back =>
        have other : p ≠ b := fun same => apart List.mem_cons_self (same ▸ List.mem_cons_self)
        simp [dropPart?, other]
    | cons c r =>
      rw [List.cons_append, dropPart?, dropPart?]
      split
      · exact ih (List.disjoint_cons_left.mp apart).2 r
      · rfl

theorem isPrefixIff {part cs : List Char} : (dropPart? part cs).isSome = true ↔ part <+: cs := by
  constructor
  · intro found
    obtain ⟨rest, same⟩ := Option.isSome_iff_exists.mp found
    exact ⟨rest, (dropPartSome same).symm⟩
  · rintro ⟨rest, rfl⟩
    rw [dropPartAppend]
    rfl

theorem occursIff {part cs : List Char} : occursIn part cs = true ↔ part <:+: cs := by
  induction cs with
  | nil => rw [occursIn, List.isEmpty_iff, List.infix_nil]
  | cons c r ih => rw [occursIn, Bool.or_eq_true, isPrefixIff, ih, List.infix_cons_iff]

variable {part : List Char}

theorem beforeLastNone {cs : List Char} : beforeLast? part cs = none ↔ ¬ part <:+: cs := by
  induction cs with
  | nil =>
    rw [beforeLast?, List.infix_nil]
    split <;> simp_all
  | cons c r ih =>
    rw [beforeLast?, List.infix_cons_iff, ← isPrefixIff]
    cases later : beforeLast? part r with
    | none =>
      have absent := ih.mp later
      simp only
      split <;> simp_all
    | some before =>
      have inside : part <:+: r := by_contra fun absent => by simp [ih.mpr absent] at later
      simp [inside]

theorem beforeLastSplit {cs before : List Char} (last : beforeLast? part cs = some before) :
    ∃ after, cs = before ++ (part ++ after) := by
  induction cs generalizing before with
  | nil =>
    rw [beforeLast?] at last
    split at last
    · next empty =>
      cases last
      exact ⟨[], by simpa using empty⟩
    · cases last
  | cons c r ih =>
    rw [beforeLast?] at last
    split at last
    · next later found =>
      cases last
      obtain ⟨after, same⟩ := ih found
      exact ⟨after, by rw [same, List.cons_append]⟩
    · split at last
      · next here =>
        cases last
        obtain ⟨after, same⟩ := isPrefixIff.mp here
        exact ⟨after, same.symm⟩
      · cases last

theorem beforeLastAppend {cs before : List Char} (last : beforeLast? part cs = some before) (front : List Char) :
    beforeLast? part (front ++ cs) = some (front ++ before) := by
  induction front with
  | nil => exact last
  | cons c r ih => rw [List.cons_append, beforeLast?, ih, List.cons_append]

theorem beforeLastOf {p : Char} (front : List Char) {back : List Char} (absent : ¬ p :: part <:+: part ++ back) :
    beforeLast? (p :: part) (front ++ (p :: part ++ back)) = some front := by
  have here : beforeLast? (p :: part) (p :: (part ++ back)) = some [] := by
    rw [beforeLast?, beforeLastNone.mpr absent]
    exact if_pos (isPrefixIff.mpr ⟨back, rfl⟩)
  simpa using beforeLastAppend here front

theorem beforeLastTwice {cs before : List Char} (last : beforeLast? part cs = some before) :
    part <:+: before ↔ ∃ front between back, cs = front ++ (part ++ (between ++ (part ++ back))) := by
  constructor
  · rintro ⟨front, between, rfl⟩
    obtain ⟨back, same⟩ := beforeLastSplit last
    exact ⟨front, between, back, by simp [same]⟩
  · rintro ⟨front, between, back, rfl⟩
    have inside : part <:+: between ++ (part ++ back) := ⟨between, back, by simp⟩
    obtain ⟨later, found⟩ := Option.ne_none_iff_exists'.mp (mt beforeLastNone.mp (not_not.mpr inside))
    have whole := beforeLastAppend found (front ++ part)
    rw [List.append_assoc, last] at whole
    exact ⟨front, later, (Option.some.inj whole).symm⟩

theorem prefixSeparated {c : Char} (absent : c ∉ part) {front back : List Char} (ahead : part <+: front ++ c :: back) :
    part <+: front := by
  induction front generalizing part with
  | nil =>
    cases part with
    | nil => exact List.nil_prefix
    | cons p part => exact absurd ((List.cons_prefix_cons.mp ahead).1 ▸ List.mem_cons_self) absent
  | cons x r ih =>
    cases part with
    | nil => exact List.nil_prefix
    | cons p part =>
      obtain ⟨same, later⟩ := List.cons_prefix_cons.mp ahead
      exact List.cons_prefix_cons.mpr ⟨same, ih (fun inside => absent (List.mem_cons_of_mem _ inside)) later⟩

theorem infixSeparated {c : Char} (absent : c ∉ part) (front back : List Char) :
    part <:+: front ++ c :: back ↔ part <:+: front ∨ part <:+: back := by
  induction front with
  | nil =>
    rw [List.nil_append, List.infix_cons_iff, List.infix_nil, List.prefix_cons_iff]
    constructor
    · rintro ((empty | ⟨rest, same, -⟩) | inside)
      · exact .inl empty
      · exact absurd (same ▸ List.mem_cons_self) absent
      · exact .inr inside
    · rintro (empty | inside)
      · exact .inl (.inl empty)
      · exact .inr inside
  | cons x r ih =>
    rw [List.cons_append, List.infix_cons_iff, List.infix_cons_iff, ih, or_assoc]
    exact or_congr_left ⟨@prefixSeparated _ _ absent (x :: r) _, fun ahead => ahead.trans (List.prefix_append _ _)⟩

theorem notInfix {c : Char} (own : c ∈ part) {cs : List Char} (absent : c ∉ cs) : ¬ part <:+: cs :=
  fun inside => absent (inside.subset own)

theorem infixBehind {p : Char} {front : List Char} (absent : p ∉ front) (back : List Char) :
    p :: part <:+: front ++ back ↔ p :: part <:+: back := by
  induction front with
  | nil => rfl
  | cons c r ih =>
    rw [List.mem_cons, not_or] at absent
    obtain ⟨other, later⟩ := absent
    rw [List.cons_append, List.infix_cons_iff, List.cons_prefix_cons, ih later]
    simp [other]

end ConstraintDesk.Text
