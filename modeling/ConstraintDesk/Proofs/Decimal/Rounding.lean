import ConstraintDesk.Decimal.Binary64
import Mathlib

/-! Rounding a quotient to the nearest binary number. The pattern depends on the value of the quotient
alone, and every number strictly between the two halfway points of a pattern rounds to it. -/
namespace ConstraintDesk.Binary64

/-- The exponent of the grid on which a positive number is rounded: 53 bits are enough for the whole
part on the grid, and 52 are not unless the grid is the finest one. -/
structure IsGrid (x : ℚ) (e : ℤ) : Prop where
  least : -1074 ≤ e
  below : x < 2 ^ (53 + e)
  above : e = -1074 ∨ 2 ^ (52 + e) ≤ x

theorem IsGrid.le {x : ℚ} {e f : ℤ} (h : IsGrid x e) (k : IsGrid x f) : e ≤ f := by
  rcases h.above with rfl | above
  · exact k.least
  · have exponents : (2 : ℚ) ^ (52 + e) < 2 ^ (53 + f) := above.trans_lt k.below
    have := (zpow_lt_zpow_iff_right₀ (by norm_num : (1 : ℚ) < 2)).mp exponents
    omega

theorem IsGrid.unique {x : ℚ} {e f : ℤ} (h : IsGrid x e) (k : IsGrid x f) : e = f :=
  le_antisymm (h.le k) (k.le h)

theorem scaledPos (num : Nat) {den : Nat} (pos : 0 < den) (e : ℤ) : 0 < (scaled num den e).2 := by
  unfold scaled
  split
  · exact pos
  · exact Nat.mul_pos pos (Nat.pow_pos (by norm_num))

theorem scaledValue (num : Nat) {den : Nat} (pos : 0 < den) (e : ℤ) :
    ((scaled num den e).1 : ℚ) / (scaled num den e).2 = (num : ℚ) / den / 2 ^ e := by
  have hd : (den : ℚ) ≠ 0 := by exact_mod_cast pos.ne'
  unfold scaled
  split
  · next negative =>
    obtain ⟨n, rfl⟩ : ∃ n : Nat, e = -n := ⟨e.natAbs, by omega⟩
    simp only [Int.natAbs_neg, Int.natAbs_natCast, zpow_neg, zpow_natCast, Nat.cast_mul, Nat.cast_pow,
      Nat.cast_ofNat]
    field_simp
  · next positive =>
    obtain ⟨n, rfl⟩ : ∃ n : Nat, e = n := ⟨e.natAbs, by omega⟩
    simp only [Int.natAbs_natCast, zpow_natCast, Nat.cast_mul, Nat.cast_pow, Nat.cast_ofNat]
    field_simp

theorem log2Bounds {n : Nat} (pos : 0 < n) :
    (2 : ℚ) ^ (n.log2 : ℤ) ≤ n ∧ (n : ℚ) < 2 ^ ((n.log2 : ℤ) + 1) := by
  have low : 2 ^ n.log2 ≤ n := Nat.log2_self_le pos.ne'
  have high : n < 2 ^ (n.log2 + 1) := Nat.lt_log2_self
  constructor
  · rw [zpow_natCast]; exact_mod_cast low
  · rw [← Nat.cast_succ, zpow_natCast]; exact_mod_cast high

theorem ratioBounds {num den : Nat} (hn : 0 < num) (hd : 0 < den) :
    (2 : ℚ) ^ ((num.log2 : ℤ) - den.log2 - 1) < (num : ℚ) / den ∧
    (num : ℚ) / den < 2 ^ ((num.log2 : ℤ) - den.log2 + 1) := by
  obtain ⟨numLow, numHigh⟩ := log2Bounds hn
  obtain ⟨denLow, denHigh⟩ := log2Bounds hd
  have denPos : (0 : ℚ) < den := by exact_mod_cast hd
  constructor
  · rw [lt_div_iff₀ denPos]
    calc (2 : ℚ) ^ ((num.log2 : ℤ) - den.log2 - 1) * den
        < 2 ^ ((num.log2 : ℤ) - den.log2 - 1) * 2 ^ ((den.log2 : ℤ) + 1) := by gcongr
      _ = 2 ^ (num.log2 : ℤ) := by rw [← zpow_add₀ (by norm_num)]; congr 1; ring
      _ ≤ num := numLow
  · rw [div_lt_iff₀ denPos]
    calc (num : ℚ) < 2 ^ ((num.log2 : ℤ) + 1) := numHigh
      _ = 2 ^ ((num.log2 : ℤ) - den.log2 + 1) * 2 ^ (den.log2 : ℤ) := by
        rw [← zpow_add₀ (by norm_num)]; congr 1; ring
      _ ≤ 2 ^ ((num.log2 : ℤ) - den.log2 + 1) * den := by gcongr

theorem gridExponentSpec {num den : Nat} (hn : 0 < num) (hd : 0 < den) :
    IsGrid ((num : ℚ) / den) (gridExponent num den) := by
  obtain ⟨low, high⟩ := ratioBounds hn hd
  unfold gridExponent
  generalize hg : max (-1074) ((num.log2 : ℤ) - den.log2 - 53) = guess
  have least : -1074 ≤ guess := hg ▸ le_max_left _ _
  have far : (num.log2 : ℤ) - den.log2 - 53 ≤ guess := hg ▸ le_max_right _ _
  have gridPos : (0 : ℚ) < 2 ^ guess := by positivity
  have compare : (scaled num den guess).1 < (scaled num den guess).2 * 2 ^ 53 ↔
      (num : ℚ) / den < 2 ^ (53 + guess) := by
    have posQ : (0 : ℚ) < (scaled num den guess).2 := by exact_mod_cast scaledPos num hd guess
    have value := scaledValue num hd guess
    rw [div_eq_iff posQ.ne'] at value
    rw [zpow_add₀ (by norm_num), ← div_lt_iff₀ gridPos, ← mul_lt_mul_iff_left₀ posQ, ← value]
    norm_cast
    rw [mul_comm (2 ^ 53)]
  simp only [compare]
  split
  · next fits =>
    refine ⟨least, fits, ?_⟩
    rcases eq_or_ne guess (-1074) with bottom | other
    · exact .inl bottom
    · right
      have exact : guess = (num.log2 : ℤ) - den.log2 - 53 := by omega
      rw [exact]
      refine le_of_eq_of_le ?_ low.le
      congr 1; ring
  · next large =>
    refine ⟨by omega, ?_, .inr ?_⟩
    · refine high.trans_le (zpow_le_zpow_right₀ (by norm_num) (by omega))
    · rw [show (52 + (guess + 1) : ℤ) = 53 + guess by ring]
      exact not_lt.mp large

theorem gridExponentUnique {num den : Nat} (hn : 0 < num) (hd : 0 < den) {e : ℤ}
    (grid : IsGrid ((num : ℚ) / den) e) : gridExponent num den = e :=
  (gridExponentSpec hn hd).unique grid

theorem roundHalfEvenScale {k : Nat} (pos : 0 < k) (num den : Nat) :
    roundHalfEven (num * k) (den * k) = roundHalfEven num den := by
  have rest : 2 * (num * k % (den * k)) = 2 * (num % den) * k := by
    rw [Nat.mul_mod_mul_right, Nat.mul_assoc]
  have less : 2 * (num % den) * k < den * k ↔ 2 * (num % den) < den := Nat.mul_lt_mul_right pos
  have same : 2 * (num % den) * k = den * k ↔ 2 * (num % den) = den := Nat.mul_left_inj pos.ne'
  unfold roundHalfEven
  simp only [Nat.mul_div_mul_right num den pos, rest, less, same]

theorem roundHalfEvenCongr {n d n' d' : Nat} (hd : 0 < d) (hd' : 0 < d') (same : n * d' = n' * d) :
    roundHalfEven n d = roundHalfEven n' d' := by
  rw [← roundHalfEvenScale hd' n d, same, Nat.mul_comm d d', roundHalfEvenScale hd]

theorem roundHalfEvenOfNear {num den s : Nat} (low : 2 * s * den < 2 * num + den)
    (high : 2 * num < (2 * s + 1) * den) : roundHalfEven num den = s := by
  have pos : 0 < den := Nat.pos_of_ne_zero fun zero => by simp [zero] at high
  have parts := Nat.div_add_mod num den
  have small := Nat.mod_lt num pos
  unfold roundHalfEven
  generalize num / den = floor at parts ⊢
  generalize num % den = rest at parts small ⊢
  subst parts
  have notAbove : floor ≤ s := by
    by_contra more
    have : (s + 1) * den ≤ floor * den := Nat.mul_le_mul_right den (by omega)
    nlinarith
  have notBelow : s ≤ floor + 1 := by
    by_contra more
    have : (floor + 2) * den ≤ s * den := Nat.mul_le_mul_right den (by omega)
    nlinarith
  rcases Nat.lt_or_ge floor s with less | enough
  · obtain rfl : s = floor + 1 := by omega
    have upper : den < 2 * rest := by nlinarith
    rw [if_neg (by omega), if_neg (by omega)]
  · obtain rfl : floor = s := by omega
    have lower : 2 * rest < den := by nlinarith
    rw [if_pos lower]

theorem ratioEq {n d n' d' : Nat} (hd : 0 < d) (hd' : 0 < d') :
    (n : ℚ) / d = (n' : ℚ) / d' ↔ n * d' = n' * d := by
  have left : (d : ℚ) ≠ 0 := by exact_mod_cast hd.ne'
  have right : (d' : ℚ) ≠ 0 := by exact_mod_cast hd'.ne'
  rw [div_eq_div_iff left right]
  norm_cast

theorem roundHalfEvenFloor (num den : Nat) : num / den ≤ roundHalfEven num den := by
  simp only [roundHalfEven]
  split
  · exact Nat.le_refl _
  · split <;> omega

theorem roundHalfEvenCeil (num den : Nat) : roundHalfEven num den ≤ num / den + 1 := by
  simp only [roundHalfEven]
  split
  · omega
  · split <;> omega

theorem codeOfRatioEq {num den : Nat} (hn : 0 < num) {e : ℤ} (grid : gridExponent num den = e) :
    codeOfRatio num den = min ((e + 1074).toNat * 2 ^ 52 +
      roundHalfEven (scaled num den e).1 (scaled num den e).2) infinityCode := by
  simp only [codeOfRatio, hn.ne', if_false, unboundedCode, grid]

theorem codeOfRatioCongr {n d n' d' : Nat} (hd : 0 < d) (hd' : 0 < d') (same : n * d' = n' * d) :
    codeOfRatio n d = codeOfRatio n' d' := by
  rcases Nat.eq_zero_or_pos n with rfl | hn
  · obtain rfl : n' = 0 := by
      rcases Nat.mul_eq_zero.mp (same.symm.trans (Nat.zero_mul d')) with zero | zero
      · exact zero
      · exact absurd zero hd.ne'
    simp only [codeOfRatio, if_true]
  · have hn' : 0 < n' := Nat.pos_of_ne_zero fun zero => by
      rw [zero, Nat.zero_mul] at same
      exact absurd same (Nat.mul_pos hn hd').ne'
    have value : (n : ℚ) / d = (n' : ℚ) / d' := (ratioEq hd hd').mpr same
    have grid : gridExponent n d = gridExponent n' d' :=
      gridExponentUnique hn hd (value ▸ gridExponentSpec hn' hd')
    have rounded (e : ℤ) : roundHalfEven (scaled n d e).1 (scaled n d e).2 =
        roundHalfEven (scaled n' d' e).1 (scaled n' d' e).2 := by
      apply roundHalfEvenCongr (scaledPos n hd e) (scaledPos n' hd' e)
      rw [← ratioEq (scaledPos n hd e) (scaledPos n' hd' e), scaledValue n hd, scaledValue n' hd', value]
    rw [codeOfRatioEq hn grid, codeOfRatioEq hn' rfl, rounded]

theorem significandLt (code : Nat) : significand code < 2 ^ 53 := by
  unfold significand
  split <;> omega

theorem significandPos {code : Nat} (pos : 0 < code) : 0 < significand code := by
  unfold significand
  split <;> omega

theorem exponentLeast (code : Nat) : -1074 ≤ exponent code := by
  unfold exponent
  split <;> omega

theorem significandNormal (code : Nat) : exponent code = -1074 ∨ 2 ^ 52 ≤ significand code := by
  unfold exponent significand
  split
  · exact .inl rfl
  · exact .inr (by omega)

theorem codeOfParts (code : Nat) :
    (exponent code + 1074).toNat * 2 ^ 52 + significand code = code := by
  unfold exponent significand
  split
  · simp
  · next normal =>
    have step : ((code / 2 ^ 52 : Nat) - 1075 + 1074 : ℤ).toNat = code / 2 ^ 52 - 1 := by omega
    rw [step]
    omega

def exactValue (code : Nat) : ℚ := significand code * 2 ^ exponent code

def halfStep (code : Nat) : ℚ := 2 ^ exponent code / 2

structure IsNear (code : Nat) (x : ℚ) : Prop where
  above : exactValue code - halfStep code < x
  below : x < exactValue code + halfStep code
  edge : significand code = 2 ^ 52 → exponent code ≠ -1074 → exactValue code ≤ x

theorem IsNear.grid {code : Nat} {x : ℚ} (near : IsNear code x) : IsGrid x (exponent code) := by
  have gridPos : (0 : ℚ) < 2 ^ exponent code := by positivity
  refine ⟨exponentLeast code, ?_, ?_⟩
  · have whole : (significand code : ℚ) + 1 ≤ 2 ^ 53 := by exact_mod_cast significandLt code
    calc x < exactValue code + halfStep code := near.below
      _ ≤ (significand code + 1) * 2 ^ exponent code := by unfold exactValue halfStep; linarith
      _ ≤ 2 ^ (53 : ℤ) * 2 ^ exponent code := by gcongr; exact_mod_cast whole
      _ = 2 ^ (53 + exponent code) := (zpow_add₀ (by norm_num) _ _).symm
  · rcases significandNormal code with bottom | normal
    · exact .inl bottom
    · rcases eq_or_ne (exponent code) (-1074) with bottom | other
      · exact .inl bottom
      · right
        rw [zpow_add₀ (by norm_num)]
        rcases Nat.eq_or_lt_of_le normal with edge | inner
        · have exact := near.edge edge.symm other
          rw [exactValue, ← edge] at exact
          exact_mod_cast exact
        · have more : (2 : ℚ) ^ (52 : ℤ) + 1 ≤ significand code := by exact_mod_cast inner
          have above := near.above
          unfold exactValue halfStep at above
          nlinarith

theorem codeOfNear {code num den : Nat} (finite : code < infinityCode) (hn : 0 < num) (hd : 0 < den)
    (near : IsNear code ((num : ℚ) / den)) : codeOfRatio num den = code := by
  have grid := gridExponentUnique hn hd near.grid
  have gridPos : (0 : ℚ) < 2 ^ exponent code := by positivity
  have scale := scaledValue num hd (exponent code)
  have pos : (0 : ℚ) < (scaled num den (exponent code)).2 := by exact_mod_cast scaledPos num hd _
  have exact : (num : ℚ) / den =
      (scaled num den (exponent code)).1 / (scaled num den (exponent code)).2 * 2 ^ exponent code := by
    rw [scale, div_mul_cancel₀ _ gridPos.ne']
  have rounded : roundHalfEven (scaled num den (exponent code)).1 (scaled num den (exponent code)).2 =
      significand code := by
    have low := near.above
    have high := near.below
    rw [exact] at low high
    generalize (scaled num den (exponent code)).1 = n at *
    generalize (scaled num den (exponent code)).2 = d at *
    unfold exactValue halfStep at low high
    have low' : (significand code : ℚ) - 1 / 2 < n / d := by nlinarith
    have high' : (n : ℚ) / d < significand code + 1 / 2 := by nlinarith
    rw [lt_div_iff₀ pos] at low'
    rw [div_lt_iff₀ pos] at high'
    apply roundHalfEvenOfNear
    · have : (2 * significand code * d : ℚ) < 2 * n + d := by linarith
      exact_mod_cast this
    · have : (2 * n : ℚ) < (2 * significand code + 1) * d := by linarith
      exact_mod_cast this
  rw [codeOfRatioEq hn grid, rounded, codeOfParts]
  exact Nat.min_eq_left finite.le

end ConstraintDesk.Binary64
