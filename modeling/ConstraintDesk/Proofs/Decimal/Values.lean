import ConstraintDesk.Decimal.Shortest
import ConstraintDesk.Proofs.Decimal.Rounding

/-! The binary number of a decimal depends on the value of the decimal alone: the two bounds beyond
which the digits are not looked at lie where rounding gives infinity and zero anyway. -/
namespace ConstraintDesk.Binary64

def decimalRatio (digits : Nat) (power : ℤ) : Nat × Nat :=
  if power < 0 then (digits, 10 ^ power.natAbs) else (digits * 10 ^ power.natAbs, 1)

theorem decimalRatioPos (digits : Nat) (power : ℤ) : 0 < (decimalRatio digits power).2 := by
  unfold decimalRatio
  split
  · exact Nat.pow_pos (by norm_num)
  · exact Nat.one_pos

theorem decimalRatioValue (digits : Nat) (power : ℤ) :
    ((decimalRatio digits power).1 : ℚ) / (decimalRatio digits power).2 = digits * 10 ^ power := by
  unfold decimalRatio
  split
  · next negative =>
    obtain ⟨n, rfl⟩ : ∃ n : Nat, power = -n := ⟨power.natAbs, by omega⟩
    simp only [Int.natAbs_neg, Int.natAbs_natCast, zpow_neg, zpow_natCast, Nat.cast_pow, Nat.cast_ofNat]
    rw [div_eq_mul_inv]
  · next positive =>
    obtain ⟨n, rfl⟩ : ∃ n : Nat, power = n := ⟨power.natAbs, by omega⟩
    simp only [Int.natAbs_natCast, zpow_natCast, Nat.cast_mul, Nat.cast_pow, Nat.cast_ofNat, Nat.cast_one,
      div_one]

theorem powerBound : (2 : ℚ) ^ (1024 : ℤ) ≤ 10 ^ (310 : ℤ) := by
  have step : (2 : ℚ) ^ 102 * (3 / 2) ≤ 10 ^ 31 := by norm_num
  calc (2 : ℚ) ^ (1024 : ℤ) = (2 ^ 102) ^ 10 * 2 ^ 4 := by
        rw [← pow_mul, ← pow_add]
        exact zpow_natCast 2 1024
    _ ≤ (2 ^ 102) ^ 10 * (3 / 2) ^ 10 := by gcongr; norm_num
    _ = (2 ^ 102 * (3 / 2)) ^ 10 := (mul_pow _ _ _).symm
    _ ≤ (10 ^ 31) ^ 10 := by gcongr
    _ = 10 ^ (310 : ℤ) := by
        rw [← pow_mul]
        exact (zpow_natCast 10 310).symm

theorem codeOfRatioHuge {num den : Nat} (hn : 0 < num) (hd : 0 < den)
    (huge : (2 : ℚ) ^ (1024 : ℤ) ≤ (num : ℚ) / den) : codeOfRatio num den = infinityCode := by
  have grid := gridExponentSpec hn hd
  have far : 971 < gridExponent num den := by
    have exponents := huge.trans_lt grid.below
    have := (zpow_lt_zpow_iff_right₀ (by norm_num : (1 : ℚ) < 2)).mp exponents
    omega
  have normal : (2 : ℚ) ^ (52 + gridExponent num den) ≤ (num : ℚ) / den := by
    rcases grid.above with bottom | above
    · omega
    · exact above
  have gridPos : (0 : ℚ) < 2 ^ gridExponent num den := by positivity
  have pos : (0 : ℚ) < (scaled num den (gridExponent num den)).2 := by exact_mod_cast scaledPos num hd _
  have many : 2 ^ 52 ≤ roundHalfEven (scaled num den (gridExponent num den)).1
      (scaled num den (gridExponent num den)).2 := by
    refine le_trans ?_ (roundHalfEvenFloor _ _)
    rw [zpow_add₀ (by norm_num), ← le_div_iff₀ gridPos, ← scaledValue num hd, le_div_iff₀ pos] at normal
    rw [Nat.le_div_iff_mul_le (scaledPos num hd _)]
    exact_mod_cast normal
  rw [codeOfRatioEq hn rfl, infinityCode]
  omega

theorem codeOfRatioTiny {num den : Nat} (hn : 0 < num) (hd : 0 < den)
    (tiny : (num : ℚ) / den < 2 ^ (-1076 : ℤ)) : codeOfRatio num den = 0 := by
  have grid : gridExponent num den = -1074 := by
    refine gridExponentUnique hn hd ⟨le_refl _, tiny.trans ?_, .inl rfl⟩
    exact zpow_lt_zpow_right₀ (by norm_num) (by norm_num)
  have pos : (0 : ℚ) < (scaled num den (-1074)).2 := by exact_mod_cast scaledPos num hd _
  have zero : roundHalfEven (scaled num den (-1074)).1 (scaled num den (-1074)).2 = 0 := by
    have value := scaledValue num hd (-1074)
    have bound : (num : ℚ) / den / 2 ^ (-1074 : ℤ) < 1 / 4 := by
      rw [div_lt_iff₀ (by positivity)]
      refine tiny.trans_eq ?_
      rw [show (-1076 : ℤ) = -2 + -1074 by norm_num, zpow_add₀ (by norm_num)]
      congr 1
      norm_num
    rw [← value, div_lt_iff₀ pos] at bound
    apply roundHalfEvenOfNear
    · have := scaledPos num hd (-1074)
      omega
    · have : (2 * (scaled num den (-1074)).1 : ℚ) < (scaled num den (-1074)).2 := by linarith
      rw [Nat.mul_zero, Nat.zero_add, Nat.one_mul]
      exact_mod_cast this
  rw [codeOfRatioEq hn grid, zero]
  rfl

theorem ofIntFinite {i : ℤ} (small : i.natAbs < 2 ^ 64) : (ofInt i).isFinite = true := by
  rw [isFinite, decide_eq_true_eq]
  rcases Nat.eq_zero_or_pos i.natAbs with zero | pos
  · have code : (ofInt i).code = 0 := by
      rw [ofInt, ofRatio, zero]
      rfl
    rw [code]
    decide
  · have grid := gridExponentSpec pos Nat.one_pos
    have value := scaledValue i.natAbs Nat.one_pos (gridExponent i.natAbs 1)
    have unit := scaledPos i.natAbs Nat.one_pos (gridExponent i.natAbs 1)
    have near : gridExponent i.natAbs 1 < 12 := by
      rcases grid.above with bottom | above
      · omega
      · have top : ((i.natAbs : Nat) : ℚ) / (1 : Nat) < 2 ^ (64 : ℤ) := by
          rw [Nat.cast_one, div_one]
          exact_mod_cast small
        have exponents := (zpow_lt_zpow_iff_right₀ (by norm_num : (1 : ℚ) < 2)).mp (above.trans_lt top)
        omega
    have few : (scaled i.natAbs 1 (gridExponent i.natAbs 1)).1 / (scaled i.natAbs 1 (gridExponent i.natAbs 1)).2
        < 2 ^ 53 := by
      have below := grid.below
      rw [zpow_add₀ (by norm_num), ← div_lt_iff₀ (by positivity), ← value,
        div_lt_iff₀ (by exact_mod_cast unit)] at below
      rw [Nat.div_lt_iff_lt_mul unit]
      exact_mod_cast below
    have ceil := roundHalfEvenCeil (scaled i.natAbs 1 (gridExponent i.natAbs 1)).1
      (scaled i.natAbs 1 (gridExponent i.natAbs 1)).2
    have code : (ofInt i).code = codeOfRatio i.natAbs 1 := rfl
    rw [code, codeOfRatioEq pos rfl, infinityCode]
    omega

theorem ofRatioEq {negative : Bool} {num den : Nat} {x : Binary64} (sign : x.negative = negative)
    (code : codeOfRatio num den = x.code) : ofRatio negative num den = x := by
  obtain ⟨n, c, bound⟩ := x
  simp only at sign code
  subst sign code
  rfl

theorem ofDecimalEq (negative : Bool) (digits : Nat) (power : ℤ) :
    ofDecimal negative digits power =
      ofRatio negative (decimalRatio digits power).1 (decimalRatio digits power).2 := by
  have value := decimalRatioValue digits power
  have den := decimalRatioPos digits power
  unfold ofDecimal
  -- Beyond the two bounds the digits are not looked at; the quotient is as large or as small there.
  split
  · next zero =>
    have vanishing : (decimalRatio digits power).1 = 0 := by
      unfold decimalRatio
      split <;> simp [zero]
    exact (ofRatioEq rfl (by rw [vanishing, codeOfRatio, if_pos rfl]; rfl)).symm
  · next nonzero =>
    have pos : (0 : ℚ) < digits * 10 ^ power := by
      have : (0 : ℚ) < digits := by exact_mod_cast Nat.pos_of_ne_zero nonzero
      positivity
    have num : 0 < (decimalRatio digits power).1 := by
      refine Nat.pos_of_ne_zero fun vanishing => ?_
      rw [vanishing, Nat.cast_zero, zero_div] at value
      exact pos.ne value
    split
    · next large =>
      refine (ofRatioEq rfl (codeOfRatioHuge num den ?_)).symm
      have one : (1 : ℚ) ≤ digits := by exact_mod_cast Nat.pos_of_ne_zero nonzero
      rw [value]
      calc (2 : ℚ) ^ (1024 : ℤ) ≤ 10 ^ (310 : ℤ) := powerBound
        _ ≤ 10 ^ power := zpow_le_zpow_right₀ (by norm_num) large.le
        _ ≤ digits * 10 ^ power := by nlinarith [zpow_pos (by norm_num : (0 : ℚ) < 10) power]
    · split
      · next small =>
        refine (ofRatioEq rfl (codeOfRatioTiny num den ?_)).symm
        have high := (log2Bounds (Nat.pos_of_ne_zero nonzero)).2
        have negative : power ≤ 0 := by omega
        have powers : (10 : ℚ) ^ power ≤ 2 ^ power := by
          obtain ⟨n, rfl⟩ : ∃ n : Nat, power = -n := ⟨power.natAbs, by omega⟩
          rw [zpow_neg, zpow_neg, zpow_natCast, zpow_natCast]
          gcongr
          norm_num
        rw [value]
        calc (digits : ℚ) * 10 ^ power < 2 ^ ((digits.log2 : ℤ) + 1) * 10 ^ power := by gcongr
          _ ≤ 2 ^ ((digits.log2 : ℤ) + 1) * 2 ^ power := by gcongr
          _ = 2 ^ ((digits.log2 : ℤ) + 1 + power) := (zpow_add₀ (by norm_num) _ _).symm
          _ ≤ 2 ^ (-1076 : ℤ) := zpow_le_zpow_right₀ (by norm_num) (by omega)
      · unfold decimalRatio
        split <;> rfl

theorem ofDecimalCongr (negative : Bool) {digits digits' : Nat} {power power' : ℤ}
    (same : (digits : ℚ) * 10 ^ power = digits' * 10 ^ power') :
    ofDecimal negative digits power = ofDecimal negative digits' power' := by
  have left := decimalRatioPos digits power
  have right := decimalRatioPos digits' power'
  rw [← decimalRatioValue, ← decimalRatioValue, ratioEq left right] at same
  rw [ofDecimalEq, ofDecimalEq]
  exact ofRatioEq rfl (codeOfRatioCongr left right same)

theorem ofDecimalNegative (negative : Bool) (digits : Nat) (power : ℤ) :
    (ofDecimal negative digits power).negative = negative := by
  rw [ofDecimalEq]
  rfl

theorem ofDecimalCode (negative : Bool) (digits : Nat) (power : ℤ) :
    (ofDecimal negative digits power).code = (Decimal.mk digits power).value.code := by
  rw [Decimal.value, ofDecimalEq, ofDecimalEq]
  rfl

theorem ofDecimalNear {code digits : Nat} {power : ℤ} (finite : code < infinityCode)
    (pos : 0 < digits) (near : IsNear code (digits * 10 ^ power)) :
    (Decimal.mk digits power).value.code = code := by
  have value := decimalRatioValue digits power
  have num : 0 < (decimalRatio digits power).1 := by
    unfold decimalRatio
    split
    · exact pos
    · exact Nat.mul_pos pos (Nat.pow_pos (by norm_num))
  rw [Decimal.value, ofDecimalEq]
  exact codeOfNear finite num (decimalRatioPos digits power) (value ▸ near)

theorem ratioPos (code : Nat) : 0 < (ratio code).2 := by
  unfold ratio
  simp only
  split
  · exact Nat.pow_pos (by norm_num)
  · exact Nat.one_pos

theorem ratioValue (code : Nat) : ((ratio code).1 : ℚ) / (ratio code).2 = exactValue code := by
  unfold ratio exactValue
  generalize exponent code = e
  simp only
  split
  · next negative =>
    obtain ⟨n, rfl⟩ : ∃ n : Nat, e = -n := ⟨e.natAbs, by omega⟩
    simp only [Int.natAbs_neg, Int.natAbs_natCast, zpow_neg, zpow_natCast, Nat.cast_pow, Nat.cast_ofNat]
    rw [div_eq_mul_inv]
  · next positive =>
    obtain ⟨n, rfl⟩ : ∃ n : Nat, e = n := ⟨e.natAbs, by omega⟩
    simp only [Int.natAbs_natCast, zpow_natCast, Nat.cast_mul, Nat.cast_pow, Nat.cast_ofNat, Nat.cast_one,
      div_one]

end ConstraintDesk.Binary64
