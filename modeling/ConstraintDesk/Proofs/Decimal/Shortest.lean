import ConstraintDesk.Decimal.Binary64
import ConstraintDesk.Decimal.Shortest
import ConstraintDesk.Proofs.Decimal.Values
import ConstraintDesk.Text.Basic
import Mathlib

/-! The shortest decimal of a pattern reads back as the pattern: a grid of seventeen digits always has a decimal that
does, so the search ends, and dropping zeros at the end keeps the value. -/
namespace ConstraintDesk.Decimal

theorem isDigitEq (c : Char) : isDigit c = c.isDigit := by
  simp only [isDigit, Char.isDigit, Char.le_def, ge_iff_le]

theorem digitRange {c : Char} (digit : isDigit c = true) : 48 ≤ c.toNat ∧ c.toNat ≤ 57 := by
  simp only [isDigit, Bool.and_eq_true, decide_eq_true_eq, Char.le_def, UInt32.le_iff_toNat_le] at digit
  exact digit

theorem darkDigit {c : Char} (digit : isDigit c = true) : Text.isBlank c = false := by
  have range := digitRange digit
  simp only [Text.isBlank, Bool.or_eq_false_iff, Bool.and_eq_false_iff, decide_eq_false_iff_not, beq_eq_false_iff_ne]
  omega

theorem digitOfDigits {n : Nat} {c : Char} (member : c ∈ digitsOf n) : isDigit c = true := by
  rw [isDigitEq]
  exact Nat.isDigit_of_mem_toDigits (by decide) (by decide) member

theorem digitsNotNil (n : Nat) : digitsOf n ≠ [] := Nat.toDigits_ne_nil

theorem natOfDigits (n : Nat) : natOf (digitsOf n) = n := Nat.ofDigitChars_ten_toDigits

theorem natOfFrom (start : Nat) (digits : List Char) :
    digits.foldl (fun n c => 10 * n + digitValue c) start = start * 10 ^ digits.length + natOf digits := by
  induction digits generalizing start with
  | nil => simp [natOf]
  | cons c r ih =>
    unfold natOf at ih ⊢
    rw [List.foldl_cons, List.foldl_cons, ih, ih (10 * 0 + digitValue c), List.length_cons]
    ring

theorem natOfAppend (front back : List Char) :
    natOf (front ++ back) = natOf front * 10 ^ back.length + natOf back := by
  rw [natOf, List.foldl_append, natOfFrom]
  rfl

theorem natOfZeros (n : Nat) : natOf (Spelling.zeros n) = 0 := by
  induction n with
  | zero => rfl
  | succ n ih =>
    have split : Spelling.zeros (n + 1) = ['0'] ++ Spelling.zeros n := rfl
    rw [split, natOfAppend, ih]
    exact Nat.zero_mul _

theorem digitOfZeros {n : Nat} {c : Char} (member : c ∈ Spelling.zeros n) : isDigit c = true := by
  rw [List.eq_of_mem_replicate member]
  rfl

theorem digitsBounds {n : Nat} (pos : 0 < n) :
    10 ^ ((digitsOf n).length - 1) ≤ n ∧ n < 10 ^ (digitsOf n).length := by
  have positive : 0 < (digitsOf n).length := List.length_pos_iff.mpr (digitsNotNil n)
  constructor
  · rcases Nat.eq_or_lt_of_le (Nat.succ_le_of_lt positive) with one | more
    · rw [← one]
      exact pos
    · by_contra less
      have short := (Nat.length_toDigits_le_iff (b := 10) (by decide) (by omega)).mpr (not_le.mp less)
      unfold digitsOf at positive short
      omega
  · exact (Nat.length_toDigits_le_iff (by decide) positive).mp (Nat.le_refl _)

open Binary64

theorem leadingPowerLow {num den : Nat} (hn : 0 < num) (hd : 0 < den) :
    (10 : ℚ) ^ leadingPower num den ≤ (num : ℚ) / den := by
  have numPos : (0 : ℚ) < num := by exact_mod_cast hn
  have denPos : (0 : ℚ) < den := by exact_mod_cast hd
  unfold leadingPower
  split
  · next whole =>
    have positive : 0 < num / den := Nat.div_pos whole hd
    have length : 0 < (digitsOf (num / den)).length := List.length_pos_iff.mpr (digitsNotNil _)
    have bound : 10 ^ ((digitsOf (num / den)).length - 1) * den ≤ num :=
      (Nat.le_div_iff_mul_le hd).mp (digitsBounds positive).1
    rw [show ((digitsOf (num / den)).length - 1 : ℤ) = ((digitsOf (num / den)).length - 1 : Nat) by omega,
      zpow_natCast, le_div_iff₀ denPos]
    exact_mod_cast bound
  · next fraction =>
    have positive : 0 < (den - 1) / num := Nat.div_pos (by omega) hn
    have bound := (Nat.div_lt_iff_lt_mul hn).mp (digitsBounds positive).2
    have reach : den ≤ 10 ^ (digitsOf ((den - 1) / num)).length * num := by omega
    rw [zpow_neg, zpow_natCast, inv_le_comm₀ (by positivity) (by positivity), inv_div, div_le_iff₀ numPos]
    exact_mod_cast reach

theorem belowFloor (num den : Nat) (power : ℤ) :
    (below num den power).1 = if power < 0 then num * 10 ^ power.natAbs / den
      else num / (den * 10 ^ power.natAbs) := by
  unfold below
  by_cases negative : power < 0 <;> simp [negative]

theorem belowBounds (num : Nat) {den : Nat} (pos : 0 < den) (power : ℤ) :
    ((below num den power).1 : ℚ) * 10 ^ power ≤ (num : ℚ) / den ∧
    (num : ℚ) / den < ((below num den power).1 + 1) * 10 ^ power := by
  have denPos : (0 : ℚ) < den := by exact_mod_cast pos
  have floorBounds (n d : Nat) (hd : 0 < d) :
      ((n / d : Nat) : ℚ) ≤ (n : ℚ) / d ∧ (n : ℚ) / d < (n / d : Nat) + 1 := by
    have dPos : (0 : ℚ) < d := by exact_mod_cast hd
    constructor
    · rw [le_div_iff₀ dPos]
      exact_mod_cast Nat.div_mul_le_self n d
    · rw [div_lt_iff₀ dPos]
      exact_mod_cast Nat.lt_mul_of_div_lt (Nat.lt_succ_self _) hd
  have powerPos : (0 : ℚ) < 10 ^ power := by positivity
  rw [← le_div_iff₀ powerPos, ← div_lt_iff₀ powerPos, belowFloor]
  split
  · next negative =>
    obtain ⟨n, rfl⟩ : ∃ n : Nat, power = -n := ⟨power.natAbs, by omega⟩
    have scaled : (num : ℚ) / den / 10 ^ (-n : ℤ) = (num * 10 ^ n : Nat) / den := by
      rw [zpow_neg, zpow_natCast]
      push_cast
      field_simp
    rw [scaled]
    simpa only [Int.natAbs_neg, Int.natAbs_natCast] using floorBounds (num * 10 ^ n) den pos
  · next positive =>
    obtain ⟨n, rfl⟩ : ∃ n : Nat, power = n := ⟨power.natAbs, by omega⟩
    have scaled : (num : ℚ) / den / 10 ^ (n : ℤ) = num / (den * 10 ^ n : Nat) := by
      rw [zpow_natCast]
      push_cast
      field_simp
    rw [scaled]
    exact floorBounds num (den * 10 ^ n) (Nat.mul_pos pos (Nat.pow_pos (by norm_num)))

theorem isNearPos {code : Nat} {x : ℚ} (pos : 0 < code) (near : IsNear code x) : 0 < x := by
  have whole : (1 : ℚ) ≤ significand code := by exact_mod_cast significandPos pos
  have gridPos : (0 : ℚ) < 2 ^ exponent code := by positivity
  have above := near.above
  unfold exactValue halfStep at above
  nlinarith

theorem readsNear {code digits : Nat} {power : ℤ} (pos : 0 < code) (finite : code < infinityCode)
    (near : IsNear code (digits * 10 ^ power)) : (Decimal.mk digits power).value.code = code := by
  refine ofDecimalNear finite (Nat.pos_of_ne_zero fun zero => ?_) near
  have positive := isNearPos pos near
  rw [zero, Nat.cast_zero, zero_mul] at positive
  exact positive.ne rfl

theorem neighbourNear {code : Nat} {low high : ℚ} (below : low ≤ exactValue code)
    (above : exactValue code < high) (fine : (high - low) * 10 ^ 16 ≤ exactValue code) :
    IsNear code low ∨ IsNear code high := by
  have gridPos : (0 : ℚ) < 2 ^ exponent code := by positivity
  have whole : (significand code : ℚ) < 2 ^ 53 := by exact_mod_cast significandLt code
  rcases lt_or_ge (high - exactValue code) (halfStep code) with close | far
  · exact .inr ⟨by linarith, by linarith, fun _ _ => above.le⟩
  · left
    -- The neighbours are less than a half step apart, so the lower one is near if the upper one is not.
    unfold exactValue halfStep at *
    have step : (high - low) * 10 ^ 16 < 2 ^ 53 * 2 ^ exponent code := by nlinarith
    refine ⟨?_, ?_, fun edge _ => ?_⟩
    · unfold exactValue halfStep
      linarith
    · unfold exactValue halfStep
      linarith
    · rw [edge] at far fine below
      push_cast at far fine below
      linarith

theorem onGridReads {code : Nat} {tieUp : Bool} {power : ℤ} {d : Decimal}
    (found : onGrid? code tieUp power = some d) : d.value.code = code := by
  unfold onGrid? at found
  simp only [Bool.and_eq_true, decide_eq_true_eq] at found
  split at found
  · next both =>
    split at found
    · cases found; exact both.1
    · split at found
      · cases found; exact both.2
      · split at found
        · cases found; exact both.2
        · cases found; exact both.1
  · split at found
    · next low => cases found; exact low
    · split at found
      · next high => cases found; exact high
      · cases found

theorem onGridFinds {code : Nat} (pos : 0 < code) (finite : code < infinityCode) (tieUp : Bool) {power : ℤ}
    (fine : (10 : ℚ) ^ (power + 16) ≤ exactValue code) : (onGrid? code tieUp power).isSome := by
  obtain ⟨low, high⟩ := belowBounds (ratio code).1 (ratioPos code) power
  rw [ratioValue] at low high
  have near := neighbourNear low high (by
    rw [zpow_add₀ (by norm_num)] at fine
    rw [add_mul, one_mul, add_sub_cancel_left]
    exact_mod_cast fine)
  unfold onGrid?
  simp only [Bool.and_eq_true, decide_eq_true_eq]
  split
  · split
    · rfl
    · split
      · rfl
      · split <;> rfl
  · split
    · rfl
    · split
      · rfl
      · next noLow noHigh =>
        rcases near with near | near
        · exact absurd (readsNear pos finite near) noLow
        · exact absurd (readsNear pos finite (by exact_mod_cast near)) noHigh

theorem stripZerosReads (fuel : Nat) (d : Decimal) : (stripZeros fuel d).value = d.value := by
  induction fuel generalizing d with
  | zero => rfl
  | succ fuel ih =>
    unfold stripZeros
    split
    · next zero =>
      rw [ih]
      have exact : d.digits = d.digits / 10 * 10 := by
        simp only [Bool.and_eq_true, decide_eq_true_eq] at zero
        omega
      refine ofDecimalCongr false ?_
      rw [zpow_add_one₀ (by norm_num)]
      conv_rhs => rw [exact]
      push_cast
      ring
    · rfl

theorem shortestReads {code : Nat} (pos : 0 < code) (finite : code < infinityCode) (tieUp : Bool) :
    (shortest code tieUp).value.code = code := by
  have num : 0 < (ratio code).1 := by
    refine Nat.pos_of_ne_zero fun zero => ?_
    have value := ratioValue code
    have gridPos : (0 : ℚ) < 2 ^ exponent code := by positivity
    have whole : (0 : ℚ) < significand code := by exact_mod_cast significandPos pos
    rw [zero, Nat.cast_zero, zero_div] at value
    exact (mul_pos whole gridPos).ne value
  have lead := leadingPowerLow num (ratioPos code)
  rw [ratioValue] at lead
  -- The last grid always has a decimal, so the search cannot end without one.
  have last : (onGrid? code tieUp (leadingPower (ratio code).1 (ratio code).2 - (16 : Nat))).isSome := by
    refine onGridFinds pos finite tieUp ?_
    simpa using lead
  unfold shortest
  simp only
  rw [stripZerosReads]
  cases found : (List.range 17).findSome? fun (k : Nat) =>
      onGrid? code tieUp (leadingPower (ratio code).1 (ratio code).2 - k) with
  | none =>
    rw [List.findSome?_eq_none_iff] at found
    have missing := found 16 (by decide)
    rw [missing] at last
    cases last
  | some d =>
    obtain ⟨k, _, reads⟩ := List.exists_of_findSome?_eq_some found
    exact onGridReads reads

end ConstraintDesk.Decimal
