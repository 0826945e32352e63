import ConstraintDesk.Proofs.Decimal.Whole

/-! Rounding to nearest. The numbers of the format that lie on the grid of a quotient are whole multiples
of its step, and the others lie below all of them and below the quotient, so none is nearer to the
quotient than what it is rounded to. -/
namespace ConstraintDesk.Binary64

theorem roundHalfEvenNearest (n : Nat) {d : Nat} (pos : 0 < d) (k : Nat) :
    |(n : ℚ) / d - roundHalfEven n d| ≤ |(n : ℚ) / d - k| := by
  rcases eq_or_ne (roundHalfEven n d) k with same | other
  · rw [same]
  · have close := roundHalfEvenClose n pos
    have apart : (1 : ℚ) ≤ |(roundHalfEven n d : ℚ) - k| := by
      have whole : 1 ≤ |(roundHalfEven n d : ℤ) - k| := Int.one_le_abs (by omega)
      exact_mod_cast whole
    have triangle := abs_sub_le (roundHalfEven n d : ℚ) ((n : ℚ) / d) k
    rw [abs_sub_comm (roundHalfEven n d : ℚ) ((n : ℚ) / d)] at triangle
    linarith

theorem exactOnGrid (code : Nat) (e : ℤ) :
    (∃ k : Nat, exactValue code = k * 2 ^ e) ∨ exponent code < e ∧ exactValue code < 2 ^ 52 * 2 ^ e := by
  rcases lt_or_ge (exponent code) e with finer | coarser
  · refine .inr ⟨finer, ?_⟩
    have significand : (significand code : ℚ) < 2 ^ 53 := by exact_mod_cast significandLt code
    have steps : (2 : ℚ) ^ exponent code ≤ 2 ^ (e - 1) := zpow_le_zpow_right₀ (by norm_num) (by omega)
    have half : (2 : ℚ) ^ e = 2 ^ (e - 1) * 2 := by
      rw [← zpow_add_one₀ (by norm_num), sub_add_cancel]
    have positive : (0 : ℚ) < 2 ^ exponent code := by positivity
    unfold exactValue
    calc (Binary64.significand code : ℚ) * 2 ^ exponent code
      _ < 2 ^ 53 * 2 ^ exponent code := by gcongr
      _ ≤ 2 ^ 53 * 2 ^ (e - 1) := by gcongr
      _ = 2 ^ 52 * 2 ^ e := by rw [half]; ring
  · refine .inl ⟨significand code * 2 ^ (exponent code - e).toNat, ?_⟩
    have power : exponent code = ((exponent code - e).toNat : ℤ) + e := by omega
    have steps : (2 : ℚ) ^ exponent code = 2 ^ (exponent code - e).toNat * 2 ^ e := by
      conv_lhs => rw [power, zpow_add₀ (by norm_num), zpow_natCast]
    rw [exactValue, steps]
    push_cast
    ring

theorem nearestOfRatio {num den : Nat} (hn : 0 < num) (hd : 0 < den) (finite : codeOfRatio num den < infinityCode)
    (code : Nat) : |(num : ℚ) / den - exactValue (codeOfRatio num den)| ≤ |(num : ℚ) / den - exactValue code| := by
  obtain ⟨exact, -⟩ := exactOfRatio hn hd finite
  have grid := gridExponentSpec hn hd
  have value := scaledValue num hd (gridExponent num den)
  have pos := scaledPos num hd (gridExponent num den)
  rw [exact]
  generalize gridExponent num den = e at *
  generalize (scaled num den e).1 = n at *
  generalize (scaled num den e).2 = d at *
  have gridPos : (0 : ℚ) < 2 ^ e := by positivity
  have scale : (num : ℚ) / den = n / d * 2 ^ e := by rw [value, div_mul_cancel₀ _ gridPos.ne']
  have onGrid (k : Nat) : |(num : ℚ) / den - roundHalfEven n d * 2 ^ e| ≤ |(num : ℚ) / den - k * 2 ^ e| := by
    rw [scale, ← sub_mul, ← sub_mul, abs_mul, abs_mul]
    exact mul_le_mul_of_nonneg_right (roundHalfEvenNearest n pos k) (abs_nonneg _)
  rcases exactOnGrid code e with ⟨k, same⟩ | ⟨finer, below⟩
  · rw [same]
    exact onGrid k
  · have above : (2 : ℚ) ^ 52 * 2 ^ e ≤ (num : ℚ) / den := by
      rcases grid.above with bottom | above
      · have := exponentLeast code
        omega
      · rwa [zpow_add₀ (by norm_num)] at above
    have least := onGrid (2 ^ 52)
    have power : ((2 ^ 52 : Nat) : ℚ) = 2 ^ 52 := by norm_cast
    rw [power, abs_of_nonneg (sub_nonneg.mpr above)] at least
    rw [abs_of_nonneg (sub_nonneg.mpr (below.le.trans above))]
    linarith

def rational (x : Binary64) : ℚ := if x.negative then -exactValue x.code else exactValue x.code

/-- A finite number such that no finite one is nearer to a given number. -/
structure IsNearest (x : Binary64) (r : ℚ) : Prop where
  finite : x.isFinite = true
  least : ∀ y : Binary64, y.isFinite = true → |r - x.rational| ≤ |r - y.rational|

theorem absRational (x : Binary64) : |x.rational| = exactValue x.code := by
  have nonneg : 0 ≤ exactValue x.code := mul_nonneg (Nat.cast_nonneg _) (by positivity)
  unfold rational
  split
  · rw [abs_neg, abs_of_nonneg nonneg]
  · exact abs_of_nonneg nonneg

theorem nearestOfInt {i : ℤ} (small : i.natAbs < 2 ^ 64) : IsNearest (ofInt i) i := by
  refine ⟨ofIntFinite small, fun y _ => ?_⟩
  have far : |(|(i : ℚ)|) - exactValue y.code| ≤ |i - y.rational| := absRational y ▸ abs_abs_sub_abs_le _ _
  refine le_trans ?_ far
  have magnitude : |(i : ℚ)| = (i.natAbs : ℚ) := by rw [Nat.cast_natAbs, Int.cast_abs]
  have signed : |i - (ofInt i).rational| = |(i.natAbs : ℚ) - exactValue (codeOfRatio i.natAbs 1)| := by
    have code : (ofInt i).code = codeOfRatio i.natAbs 1 := rfl
    have sign : (ofInt i).negative = decide (i < 0) := rfl
    rw [rational, sign, code, ← magnitude]
    by_cases below : i < 0
    · have negative : (i : ℚ) < 0 := by exact_mod_cast below
      rw [decide_eq_true below, if_pos rfl, abs_of_neg negative, ← abs_neg]
      congr 1
      ring
    · have positive : (0 : ℚ) ≤ i := by exact_mod_cast not_lt.mp below
      rw [decide_eq_false below, abs_of_nonneg positive]
      rfl
  rw [signed, magnitude]
  rcases Nat.eq_zero_or_pos i.natAbs with zero | pos
  · have vanishing : exactValue (codeOfRatio 0 1) = 0 := by simp [codeOfRatio, exactValue, significand]
    rw [zero, vanishing]
    simp
  · have nearest := nearestOfRatio pos Nat.one_pos (wholeFinite small) y.code
    rwa [Nat.cast_one, div_one] at nearest

end ConstraintDesk.Binary64
