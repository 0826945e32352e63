import ConstraintDesk.Shell.State
import Mathlib

/-! What patterns with wildcards fit, and what is cut off a text by them. -/
namespace ConstraintDesk.Machine.Glob

inductive Fits : List Sign → Bytes → Prop
  | nothing : Fits [] []
  | star {p : List Sign} {b : Bytes} (onward : Fits p b) : Fits (('*', false) :: p) b
  | starOver {p : List Sign} {c : Char} {b : Bytes} (onward : Fits (('*', false) :: p) b) :
    Fits (('*', false) :: p) (c :: b)
  | any {p : List Sign} {c : Char} {b : Bytes} (onward : Fits p b) : Fits (('?', false) :: p) (c :: b)
  | oneOf {p rest : List Sign} {members : Char → Bool} {c : Char} {b : Bytes}
    (set : bracket? p = some (members, rest)) (member : members c) (onward : Fits rest b) :
    Fits (('[', false) :: p) (c :: b)
  | unclosed {p : List Sign} {b : Bytes} (missing : bracket? p = none) (onward : Fits p b) :
    Fits (('[', false) :: p) ('[' :: b)
  | itself {s : Sign} {p : List Sign} {b : Bytes} (plain : isWild s = false) (onward : Fits p b) :
    Fits (s :: p) (s.1 :: b)

theorem bracketShortens {p rest : List Sign} {members : Char → Bool} (set : bracket? p = some (members, rest)) :
    rest.length ≤ p.length := by
  unfold bracket? at set
  split at set
  rename_i negated inner opened
  have within : inner.length ≤ p.length := by
    split at opened <;> cases opened <;> simp
  split at set
  · cases set
    rw [List.length_drop]
    omega
  · cases set

section Inversion

variable {p : List Sign} {b : Bytes} {c : Char}

theorem starIff : Fits (('*', false) :: p) (c :: b) ↔ Fits p (c :: b) ∨ Fits (('*', false) :: p) b := by
  constructor
  · intro fits
    cases fits with
    | star onward => exact .inl onward
    | starOver onward => exact .inr onward
    | itself plain => cases plain
  · rintro (onward | onward)
    · exact .star onward
    · exact .starOver onward

theorem anyIff : Fits (('?', false) :: p) (c :: b) ↔ Fits p b := by
  refine ⟨fun fits => ?_, .any⟩
  cases fits with
  | any onward => exact onward
  | itself plain => cases plain

theorem oneOfIff {rest : List Sign} {members : Char → Bool} (set : bracket? p = some (members, rest)) :
    Fits (('[', false) :: p) (c :: b) ↔ members c ∧ Fits rest b := by
  refine ⟨fun fits => ?_, fun ⟨member, onward⟩ => .oneOf set member onward⟩
  cases fits with
  | oneOf other member onward =>
    cases set.symm.trans other
    exact ⟨member, onward⟩
  | unclosed missing => cases missing.symm.trans set
  | itself plain => cases plain

theorem unclosedIff (unclosed : bracket? p = none) : Fits (('[', false) :: p) (c :: b) ↔ c = '[' ∧ Fits p b := by
  constructor
  · intro fits
    cases fits with
    | oneOf set => cases unclosed.symm.trans set
    | unclosed _ onward => exact ⟨rfl, onward⟩
    | itself plain => cases plain
  · rintro ⟨rfl, onward⟩
    exact .unclosed unclosed onward

theorem itselfIff {s : Sign} (plain : isWild s = false) : Fits (s :: p) (c :: b) ↔ s.1 = c ∧ Fits p b := by
  constructor
  · intro fits
    cases fits with
    | star | starOver | any | oneOf | unclosed => cases plain
    | itself _ onward => exact ⟨rfl, onward⟩
  · rintro ⟨rfl, onward⟩
    exact .itself plain onward

theorem endIff : Fits (('*', false) :: p) [] ↔ Fits p [] := by
  refine ⟨fun fits => ?_, .star⟩
  cases fits with
  | star onward => exact onward

end Inversion

theorem acceptsIff {fuel : Nat} {p : List Sign} {b : Bytes} (enough : p.length + b.length < fuel) :
    accepts fuel p b = true ↔ Fits p b := by
  induction fuel generalizing p b with
  | zero => omega
  | succ fuel ih =>
    unfold accepts
    split <;> simp only [List.length_cons, List.length_nil] at enough
    · simp [Fits.nothing]
    · exact iff_of_false (by simp) nofun
    · rw [ih (by simp; omega), endIff]
    · rw [Bool.or_eq_true, ih (by simp; omega), ih (by simp; omega), starIff]
    · rw [ih (by omega), anyIff]
    · split
      · next set =>
        have shorter := bracketShortens set
        rw [Bool.and_eq_true, ih (by omega), oneOfIff set]
      · next unclosed => rw [Bool.and_eq_true, decide_eq_true_iff, ih (by omega), unclosedIff unclosed]
    · next star any set =>
      rw [Bool.and_eq_true, decide_eq_true_iff, ih (by omega), itselfIff]
      simp only [isWild]
      grind
    · next star =>
      refine iff_of_false (by simp) fun fits => ?_
      cases fits with
      | star => exact star rfl

theorem matchIff {p : List Sign} {b : Bytes} : isMatch p b = true ↔ Fits p b := acceptsIff (by omega)

end ConstraintDesk.Machine.Glob

namespace ConstraintDesk.Shell

open Machine (Bytes)
open Machine.Glob (Fits Sign isMatch matchIff)

def Extreme (longest : Bool) (n m : Nat) : Prop := if longest then m ≤ n else n ≤ m

theorem lengthsSorted (longest : Bool) (b : Bytes) : (lengths longest b).Pairwise (Extreme longest) := by
  cases longest with
  | true => exact List.pairwise_reverse.mpr (List.pairwise_lt_range.imp fun less => by simpa [Extreme] using less.le)
  | false => exact List.pairwise_lt_range.imp fun less => by simpa [Extreme] using less.le

theorem lengthsMem {longest : Bool} {b : Bytes} {n : Nat} : n ∈ lengths longest b ↔ n ≤ b.length := by
  cases longest <;> simp [lengths]

theorem firstLength {longest : Bool} {b : Bytes} {q : Nat → Bool} {n : Nat}
    (found : (lengths longest b).find? q = some n) :
    q n ∧ n ≤ b.length ∧ ∀ m ≤ b.length, q m → Extreme longest n m := by
  refine ⟨List.find?_some found, lengthsMem.mp (List.mem_of_find?_eq_some found), fun m short fits => ?_⟩
  obtain ⟨-, front, back, split, before⟩ := List.find?_eq_some_iff_append.mp found
  have sorted := lengthsSorted longest b
  have member : m ∈ lengths longest b := lengthsMem.mpr short
  rw [split] at sorted member
  rcases List.mem_append.mp member with ahead | behind
  · have refused := before m ahead
    simp [fits] at refused
  · rcases List.mem_cons.mp behind with rfl | later
    · simp [Extreme]
    · exact (List.pairwise_cons.mp (List.pairwise_append.mp sorted).2.1).1 m later

variable {longest : Bool} {p : List Sign} {b : Bytes}

theorem withoutFrontOf : (∃ front, front ++ withoutFront longest p b = b ∧ Fits p front
      ∧ ∀ other, other <+: b → Fits p other → Extreme longest front.length other.length)
    ∨ (∀ front, front <+: b → ¬ Fits p front) ∧ withoutFront longest p b = b := by
  unfold withoutFront
  split
  · next n found =>
    obtain ⟨fits, short, furthest⟩ := firstLength found
    refine .inl ⟨b.take n, List.take_append_drop n b, matchIff.mp fits, ?_⟩
    rintro other ⟨rest, rfl⟩ fitsToo
    rw [List.length_take_of_le short]
    refine furthest other.length (by simp) (matchIff.mpr ?_)
    rwa [List.take_left]
  · next missing =>
    refine .inr ⟨?_, rfl⟩
    rintro front ⟨rest, rfl⟩ fits
    have refused := List.find?_eq_none.mp missing front.length (lengthsMem.mpr (by simp))
    rw [List.take_left] at refused
    exact refused (matchIff.mpr fits)

theorem withoutBackOf : (∃ back, withoutBack longest p b ++ back = b ∧ Fits p back
      ∧ ∀ other, other <:+ b → Fits p other → Extreme longest back.length other.length)
    ∨ (∀ back, back <:+ b → ¬ Fits p back) ∧ withoutBack longest p b = b := by
  unfold withoutBack
  split
  · next n found =>
    obtain ⟨fits, short, furthest⟩ := firstLength found
    refine .inl ⟨b.drop n, List.take_append_drop n b, matchIff.mp fits, ?_⟩
    rintro other ⟨rest, rfl⟩ fitsToo
    have far := furthest rest.length (by simp) (matchIff.mpr (by rwa [List.drop_left]))
    rw [List.length_append] at short
    rw [List.length_drop, List.length_append]
    cases longest <;> simp [Extreme] at far ⊢ <;> omega
  · next missing =>
    refine .inr ⟨?_, rfl⟩
    rintro back ⟨rest, rfl⟩ fits
    have refused := List.find?_eq_none.mp missing rest.length (lengthsMem.mpr (by simp))
    rw [List.drop_left] at refused
    exact refused (matchIff.mpr fits)

end ConstraintDesk.Shell
