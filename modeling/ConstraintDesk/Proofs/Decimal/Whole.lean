import ConstraintDesk.Proofs.Decimal.Spelling

/-! Whole numbers as floats. Rounding goes at most half a step astray, so a whole number of few enough
bits is met exactly, and of the numbers that end in a zero only the number itself is read as its float.
The shortest decimal of such a float is therefore the number. -/
namespace ConstraintDesk.Binary64

theorem roundHalfEvenNear (num : Nat) {den : Nat} (pos : 0 < den) :
    2 * num ≤ (2 * roundHalfEven num den + 1) * den ∧ 2 * roundHalfEven num den * den ≤ 2 * num + den := by
  have parts := Nat.div_add_mod num den
  have small := Nat.mod_lt num pos
  unfold roundHalfEven
  generalize num / den = floor at *
  generalize num % den = rest at *
  subst parts
  simp only
  split
  · constructor <;> linarith
  · split
    · next tie =>
      rcases Nat.mod_two_eq_zero_or_one floor with even | odd
      · rw [even]
        constructor <;> linarith
      · rw [odd]
        constructor <;> linarith
    · constructor <;> linarith

theorem roundHalfEvenClose (n : Nat) {d : Nat} (pos : 0 < d) : |(n : ℚ) / d - roundHalfEven n d| ≤ 1 / 2 := by
  have posQ : (0 : ℚ) < d := by exact_mod_cast pos
  obtain ⟨low, high⟩ := roundHalfEvenNear n pos
  have low : (2 * n : ℚ) ≤ (2 * roundHalfEven n d + 1) * d := by exact_mod_cast low
  have high : (2 * roundHalfEven n d * d : ℚ) ≤ 2 * n + d := by exact_mod_cast high
  have above : (n : ℚ) / d ≤ roundHalfEven n d + 1 / 2 := by
    rw [div_le_iff₀ posQ]
    linarith
  have below : (roundHalfEven n d : ℚ) - 1 / 2 ≤ n / d := by
    rw [le_div_iff₀ posQ]
    linarith
  exact abs_le.mpr ⟨by linarith, by linarith⟩

theorem exactOfCode {k r : Nat} (top : r ≤ 2 ^ 53) (normal : k = 0 ∨ 2 ^ 52 ≤ r) :
    exactValue (k * 2 ^ 52 + r) = r * 2 ^ (k - 1074 : ℤ) ∧ (k - 1074 : ℤ) ≤ exponent (k * 2 ^ 52 + r) := by
  rcases Nat.lt_or_ge r (2 ^ 52) with small | large
  · obtain rfl := normal.resolve_right (by omega)
    have code : 0 * 2 ^ 52 + r = r := by omega
    rw [code, exactValue, significand, if_pos small, exponent, if_pos small]
    exact ⟨rfl, le_refl _⟩
  · have above : ¬ k * 2 ^ 52 + r < 2 ^ 52 := by omega
    rw [exactValue, significand, if_neg above, exponent, if_neg above]
    rcases Nat.lt_or_ge r (2 ^ 53) with inner | full
    · have quotient : (k * 2 ^ 52 + r) / 2 ^ 52 = k + 1 := by omega
      have rest : 2 ^ 52 + (k * 2 ^ 52 + r) % 2 ^ 52 = r := by omega
      have exponents : ((k + 1 : Nat) : ℤ) - 1075 = k - 1074 := by omega
      rw [quotient, rest, exponents]
      exact ⟨rfl, le_refl _⟩
    · obtain rfl : r = 2 ^ 53 := by omega
      have quotient : (k * 2 ^ 52 + 2 ^ 53) / 2 ^ 52 = k + 2 := by omega
      have rest : 2 ^ 52 + (k * 2 ^ 52 + 2 ^ 53) % 2 ^ 52 = 2 ^ 52 := by omega
      have exponents : ((k + 2 : Nat) : ℤ) - 1075 = (k - 1074) + 1 := by omega
      rw [quotient, rest, exponents, zpow_add_one₀ (by norm_num)]
      refine ⟨?_, by omega⟩
      push_cast
      ring

theorem exactValuePos {code : Nat} (pos : 0 < code) : 0 < exactValue code := by
  have whole : (0 : ℚ) < significand code := by exact_mod_cast significandPos pos
  exact mul_pos whole (by positivity)

theorem exactOfRatio {num den : Nat} (hn : 0 < num) (hd : 0 < den) (finite : codeOfRatio num den < infinityCode) :
    exactValue (codeOfRatio num den) = roundHalfEven (scaled num den (gridExponent num den)).1
        (scaled num den (gridExponent num den)).2 * 2 ^ gridExponent num den
      ∧ gridExponent num den ≤ exponent (codeOfRatio num den) := by
  have grid := gridExponentSpec hn hd
  have code := codeOfRatioEq hn (e := gridExponent num den) rfl
  have value := scaledValue num hd (gridExponent num den)
  have pos := scaledPos num hd (gridExponent num den)
  generalize gridExponent num den = e at *
  generalize (scaled num den e).1 = n at *
  generalize (scaled num den e).2 = d at *
  have posQ : (0 : ℚ) < d := by exact_mod_cast pos
  have gridPos : (0 : ℚ) < 2 ^ e := by positivity
  have scale : (num : ℚ) / den = n / d * 2 ^ e := by rw [value, div_mul_cancel₀ _ gridPos.ne']
  have top : roundHalfEven n d ≤ 2 ^ 53 := by
    have below := grid.below
    rw [zpow_add₀ (by norm_num), scale, mul_lt_mul_iff_left₀ gridPos, div_lt_iff₀ posQ] at below
    have few : n / d < 2 ^ 53 := (Nat.div_lt_iff_lt_mul pos).mpr (by exact_mod_cast below)
    have ceil := roundHalfEvenCeil n d
    omega
  have normal : (e + 1074).toNat = 0 ∨ 2 ^ 52 ≤ roundHalfEven n d := by
    rcases grid.above with bottom | above
    · exact .inl (by omega)
    · right
      rw [zpow_add₀ (by norm_num), scale, mul_le_mul_iff_left₀ gridPos, le_div_iff₀ posQ] at above
      have many : 2 ^ 52 ≤ n / d := (Nat.le_div_iff_mul_le pos).mpr (by exact_mod_cast above)
      exact many.trans (roundHalfEvenFloor n d)
  have least := grid.least
  have exponents : ((e + 1074).toNat : ℤ) - 1074 = e := by omega
  have exact := exactOfCode top normal
  rw [exponents] at exact
  have unbounded : codeOfRatio num den = (e + 1074).toNat * 2 ^ 52 + roundHalfEven n d := by omega
  rwa [unbounded]

theorem nearOfRatio {num den : Nat} (hn : 0 < num) (hd : 0 < den) (finite : codeOfRatio num den < infinityCode) :
    |(num : ℚ) / den - exactValue (codeOfRatio num den)| ≤ halfStep (codeOfRatio num den) := by
  obtain ⟨exact, higher⟩ := exactOfRatio hn hd finite
  have value := scaledValue num hd (gridExponent num den)
  have pos := scaledPos num hd (gridExponent num den)
  rw [exact, halfStep]
  generalize exponent (codeOfRatio num den) = f at *
  generalize gridExponent num den = e at *
  generalize (scaled num den e).1 = n at *
  generalize (scaled num den e).2 = d at *
  have gridPos : (0 : ℚ) < 2 ^ e := by positivity
  have steps : (2 : ℚ) ^ e ≤ 2 ^ f := zpow_le_zpow_right₀ (by norm_num) higher
  have scale : (num : ℚ) / den = n / d * 2 ^ e := by rw [value, div_mul_cancel₀ _ gridPos.ne']
  have close := roundHalfEvenClose n pos
  rw [scale, ← sub_mul, abs_mul, abs_of_pos gridPos]
  calc |(n : ℚ) / d - roundHalfEven n d| * 2 ^ e
    _ ≤ 1 / 2 * 2 ^ f := mul_le_mul close steps gridPos.le (by norm_num)
    _ = 2 ^ f / 2 := by ring

theorem wholeFinite {n : Nat} (small : n < 2 ^ 64) : codeOfRatio n 1 < infinityCode := by
  have finite := ofIntFinite (i := n) (by simpa using small)
  exact of_decide_eq_true finite

theorem gridBelow {x : ℚ} {e : ℤ} {j : Nat} (grid : IsGrid x e) (less : x < 2 ^ j) : e = -1074 ∨ 52 + e < j := by
  refine grid.above.imp_right fun above => ?_
  rw [← zpow_natCast] at less
  exact (zpow_lt_zpow_iff_right₀ (by norm_num : (1 : ℚ) < 2)).mp (above.trans_lt less)

theorem gridAbove {x : ℚ} {e : ℤ} {j : Nat} (grid : IsGrid x e) (more : 2 ^ j ≤ x) : (j : ℤ) < 53 + e := by
  rw [← zpow_natCast] at more
  exact (zpow_lt_zpow_iff_right₀ (by norm_num : (1 : ℚ) < 2)).mp (more.trans_lt grid.below)

theorem exactOfWhole {n : Nat} (pos : 0 < n) (few : n < 2 ^ 53 ∨ 2 ∣ n ∧ n < 2 ^ 54) :
    exactValue (codeOfRatio n 1) = n := by
  obtain ⟨exact, -⟩ := exactOfRatio pos Nat.one_pos (wholeFinite (by omega))
  have grid := gridExponentSpec pos Nat.one_pos
  have value := scaledValue n Nat.one_pos (gridExponent n 1)
  have unit := scaledPos n Nat.one_pos (gridExponent n 1)
  rw [Nat.cast_one, div_one] at grid value
  rw [exact]
  generalize gridExponent n 1 = e at *
  generalize (scaled n 1 e).1 = num at *
  generalize (scaled n 1 e).2 = den at *
  have gridPos : (0 : ℚ) < 2 ^ e := by positivity
  obtain ⟨m, whole⟩ : ∃ m : Nat, (n : ℚ) = m * 2 ^ e := by
    have low : e ≤ 0 ∨ e = 1 ∧ 2 ∣ n := by
      rcases few with small | ⟨even, small⟩
      · have bound := gridBelow (j := 53) grid (by exact_mod_cast small)
        left
        omega
      · have bound := gridBelow (j := 54) grid (by exact_mod_cast small)
        omega
    rcases low with fine | ⟨rfl, k, rfl⟩
    · obtain ⟨k, rfl⟩ : ∃ k : Nat, e = -k := ⟨e.natAbs, by omega⟩
      refine ⟨n * 2 ^ k, ?_⟩
      rw [zpow_neg, zpow_natCast]
      push_cast
      field_simp
    · refine ⟨k, ?_⟩
      push_cast
      ring
  have posQ : (0 : ℚ) < den := by exact_mod_cast unit
  rw [whole, mul_div_cancel_right₀ _ gridPos.ne', div_eq_iff posQ.ne'] at value
  have value : num = m * den := by exact_mod_cast value
  have rounded : roundHalfEven num den = m := roundHalfEvenOfNear (by rw [value]; nlinarith) (by rw [value]; nlinarith)
  rw [rounded, whole]

theorem evenOfLarge {n : Nat} (large : 2 ^ 53 ≤ n) (bound : n < 2 ^ 64) :
    ∃ k : Nat, exactValue (codeOfRatio n 1) = (2 * k : Nat) := by
  have pos : 0 < n := by omega
  obtain ⟨exact, -⟩ := exactOfRatio pos Nat.one_pos (wholeFinite bound)
  have grid := gridExponentSpec pos Nat.one_pos
  rw [Nat.cast_one, div_one] at grid
  have above := gridAbove (j := 53) grid (by exact_mod_cast large)
  rw [exact]
  generalize gridExponent n 1 = e at *
  generalize roundHalfEven _ _ = r
  obtain ⟨k, rfl⟩ : ∃ k : Nat, e = k + 1 := ⟨(e - 1).toNat, by omega⟩
  refine ⟨r * 2 ^ k, ?_⟩
  rw [zpow_add_one₀ (by norm_num), zpow_natCast]
  push_cast
  ring

theorem codeOfWholePos {n : Nat} (pos : 0 < n) (bound : n < 2 ^ 64) : 0 < codeOfRatio n 1 := by
  by_contra zero
  have near := nearOfRatio pos Nat.one_pos (wholeFinite bound)
  have code : codeOfRatio n 1 = 0 := by omega
  have small : (2 : ℚ) ^ (-1074 : ℤ) ≤ 2 ^ (0 : ℤ) := zpow_le_zpow_right₀ (by norm_num) (by norm_num)
  have one : (1 : ℚ) ≤ n := by exact_mod_cast pos
  rw [code, exactValue, halfStep, significand, exponent, if_pos (by norm_num), if_pos (by norm_num)] at near
  simp only [Nat.cast_one, div_one, Nat.cast_zero, zero_mul, sub_zero, zpow_zero] at near small
  have above := (abs_le.mp near).2
  linarith

theorem wholeOfWhole {n : Nat} (pos : 0 < n) (bound : n < 2 ^ 64) :
    ∃ m : Nat, 0 < m ∧ exactValue (codeOfRatio n 1) = m ∧ (n < 2 ^ 53 ∨ 2 ∣ m) := by
  rcases Nat.lt_or_ge n (2 ^ 53) with small | large
  · exact ⟨n, pos, exactOfWhole pos (.inl small), .inl small⟩
  · obtain ⟨k, exact⟩ := evenOfLarge large bound
    have positive := exactValuePos (codeOfWholePos pos bound)
    rw [exact] at positive
    exact ⟨2 * k, by exact_mod_cast positive, exact, .inr ⟨k, rfl⟩⟩

theorem exponentOfWhole {code n j : Nat} (exact : exactValue code = n) (less : n < 2 ^ (53 + j)) : exponent code ≤ j := by
  rcases significandNormal code with bottom | normal
  · omega
  · by_contra high
    have steps : (2 : ℚ) ^ ((j + 1 : Nat) : ℤ) ≤ 2 ^ exponent code := zpow_le_zpow_right₀ (by norm_num) (by omega)
    have many : (2 : ℚ) ^ 52 ≤ significand code := by exact_mod_cast normal
    have product : (2 : ℚ) ^ 52 * 2 ^ (j + 1) ≤ n := by
      rw [← exact, exactValue]
      rw [zpow_natCast] at steps
      gcongr
    rw [← pow_add, show 52 + (j + 1) = 53 + j by omega] at product
    have few : (n : ℚ) < 2 ^ (53 + j) := by exact_mod_cast less
    linarith

end ConstraintDesk.Binary64

namespace ConstraintDesk.Decimal

open Binary64

theorem leadingPowerOfWhole {num den n : Nat} (hd : 0 < den) (pos : 0 < n) (whole : (num : ℚ) / den = n) :
    leadingPower num den = (digitsOf n).length - 1 := by
  have denPos : (0 : ℚ) < den := by exact_mod_cast hd
  have product : num = n * den := by
    rw [div_eq_iff denPos.ne'] at whole
    exact_mod_cast whole
  subst product
  have large : den ≤ n * den := Nat.le_mul_of_pos_left den pos
  rw [leadingPower, if_pos large, Nat.mul_div_cancel n hd]

theorem onGridPower {code : Nat} {tieUp : Bool} {power : ℤ} {d : Decimal}
    (found : onGrid? code tieUp power = some d) : d.power = power := by
  unfold onGrid? at found
  simp only [Bool.and_eq_true, decide_eq_true_eq] at found
  split at found
  · split at found
    · cases found; rfl
    · split at found
      · cases found; rfl
      · split at found
        · cases found; rfl
        · cases found; rfl
  · split at found
    · cases found; rfl
    · split at found
      · cases found; rfl
      · cases found

theorem onGridOfWhole {code n : Nat} (finite : code < infinityCode) (codePos : 0 < code)
    (exact : exactValue code = n) (tieUp : Bool) : onGrid? code tieUp 0 = some ⟨n, 0⟩ := by
  have ratio := ratioValue code
  have unit := ratioPos code
  have unitQ : (0 : ℚ) < (Binary64.ratio code).2 := by exact_mod_cast unit
  rw [exact, div_eq_iff unitQ.ne'] at ratio
  have product : (Binary64.ratio code).1 = n * (Binary64.ratio code).2 := by exact_mod_cast ratio
  have near : IsNear code ((n : Nat) * 10 ^ (0 : ℤ)) := by
    have step : (0 : ℚ) < halfStep code := by unfold halfStep; positivity
    rw [zpow_zero, mul_one, ← exact]
    exact ⟨by linarith, by linarith, fun _ _ => le_refl _⟩
  have reads : (Decimal.mk n 0).value.code = code := readsNear codePos finite near
  have below : below (Binary64.ratio code).1 (Binary64.ratio code).2 0 = (n, 0, (Binary64.ratio code).2) := by
    simp [Decimal.below, product, unit]
  unfold onGrid?
  simp only [below, reads, unit, decide_true, Bool.true_and, if_true, decide_eq_true_eq]
  split <;> rfl

theorem stripZerosValue (fuel : Nat) (d : Decimal) :
    ((stripZeros fuel d).digits : ℚ) * 10 ^ (stripZeros fuel d).power = d.digits * 10 ^ d.power
      ∧ d.power ≤ (stripZeros fuel d).power := by
  induction fuel generalizing d with
  | zero => exact ⟨rfl, le_refl _⟩
  | succ fuel ih =>
    unfold stripZeros
    split
    · next zero =>
      obtain ⟨value, power⟩ := ih ⟨d.digits / 10, d.power + 1⟩
      have exact : d.digits = d.digits / 10 * 10 := by
        simp only [Bool.and_eq_true, decide_eq_true_eq] at zero
        omega
      refine ⟨value.trans ?_, by simp only at power; omega⟩
      rw [zpow_add_one₀ (by norm_num)]
      conv_rhs => rw [exact]
      push_cast
      ring
    · exact ⟨rfl, le_refl _⟩

theorem foundUpTo {α : Type} {f : Nat → Option α} {n j : Nat} {a b : α} (found : (List.range n).findSome? f = some a)
    (inside : j < n) (known : f j = some b) : ∃ k ≤ j, f k = some a := by
  obtain ⟨front, k, behind, range, here, before⟩ := List.findSome?_eq_some_iff.mp found
  refine ⟨k, ?_, here⟩
  have sorted : (front ++ k :: behind).Pairwise (· < ·) := range ▸ List.pairwise_lt_range
  have member : j ∈ front ++ k :: behind := range ▸ List.mem_range.mpr inside
  rcases List.mem_append.mp member with early | late
  · rw [before j early] at known
    cases known
  · rcases List.mem_cons.mp late with same | later
    · exact same.ge
    · exact ((List.pairwise_cons.mp (List.pairwise_append.mp sorted).2.1).1 j later).le

theorem shortestOfWhole {code n : Nat} (finite : code < infinityCode) (codePos : 0 < code) (pos : 0 < n)
    (exact : exactValue code = n) (tieUp : Bool) :
    ∃ d : Decimal, shortest code tieUp = stripZeros 20 d ∧ (d = ⟨n, 0⟩ ∨ 0 < d.power) ∧ d.value.code = code := by
  have reads := shortestReads codePos finite tieUp
  have lead := leadingPowerOfWhole (ratioPos code) pos ((ratioValue code).trans exact)
  have length : 0 < (digitsOf n).length := List.length_pos_iff.mpr (digitsNotNil n)
  have unit : ((digitsOf n).length : ℤ) - 1 - ((digitsOf n).length - 1 : Nat) = 0 := by omega
  unfold shortest at reads ⊢
  simp only [lead] at reads ⊢
  cases found : (List.range 17).findSome? fun (k : Nat) => onGrid? code tieUp (((digitsOf n).length : ℤ) - 1 - k) with
  | none =>
    rw [found, stripZerosReads] at reads
    have zero : code = 0 := reads.symm
    omega
  | some d =>
    refine ⟨d, rfl, ?_, ?_⟩
    · by_cases few : (digitsOf n).length - 1 < 17
      · -- The search does not go past the grid of the whole numbers, where it meets the number itself.
        obtain ⟨k, near, here⟩ := foundUpTo found few (by rw [unit]; exact onGridOfWhole finite codePos exact tieUp)
        have power := onGridPower here
        rcases Nat.eq_or_lt_of_le near with rfl | early
        · left
          rw [unit, onGridOfWhole finite codePos exact] at here
          exact (Option.some.inj here).symm
        · right
          omega
      · obtain ⟨k, range, here⟩ := List.exists_of_findSome?_eq_some found
        have power := onGridPower here
        have bound := List.mem_range.mp range
        right
        omega
    · obtain ⟨k, -, here⟩ := List.exists_of_findSome?_eq_some found
      exact onGridReads here

theorem codeOfShifted {d : Decimal} (whole : 0 ≤ d.power) :
    d.value.code = codeOfRatio (d.digits * 10 ^ d.power.natAbs) 1 := by
  rw [value, ofDecimalEq, decimalRatio, if_neg (not_lt.mpr whole)]
  rfl

theorem wholeOfShortest {code n : Nat} (finite : code < infinityCode) (codePos : 0 < code) (pos : 0 < n)
    (exact : exactValue code = n) (tieUp : Bool) :
    ∃ w : Nat, ((shortest code tieUp).digits : ℚ) * 10 ^ (shortest code tieUp).power = w
      ∧ 0 ≤ (shortest code tieUp).power ∧ (w = n ∨ 10 ∣ w) ∧ codeOfRatio w 1 = code := by
  obtain ⟨d, same, found, reads⟩ := shortestOfWhole finite codePos pos exact tieUp
  obtain ⟨value, power⟩ := stripZerosValue 20 d
  have whole : 0 ≤ d.power := by
    rcases found with rfl | more
    · exact le_refl _
    · exact more.le
  rw [codeOfShifted whole] at reads
  rw [same, value]
  refine ⟨d.digits * 10 ^ d.power.natAbs, ?_, whole.trans power, ?_, reads⟩
  · obtain ⟨k, power⟩ := Int.eq_ofNat_of_zero_le whole
    rw [power, zpow_natCast]
    push_cast
    rfl
  · rcases found with rfl | more
    · exact .inl (by simp)
    · exact .inr (Dvd.dvd.mul_left (dvd_pow_self 10 (by omega)) _)

theorem digitsOfShifted {m : Nat} (pos : 0 < m) (k : Nat) : digitsOf m ++ Spelling.zeros k = digitsOf (m * 10 ^ k) := by
  induction k with
  | zero => simp [Spelling.zeros]
  | succ k ih =>
    have zeros : Spelling.zeros (k + 1) = Spelling.zeros k ++ ['0'] := List.replicate_succ'
    have shifted := Nat.toDigits_append_toDigits (b := 10) (n := m * 10 ^ k) (d := 0) (by decide)
      (Nat.mul_pos pos (Nat.pow_pos (by decide))) (by decide)
    have product : 10 * (m * 10 ^ k) + 0 = m * 10 ^ (k + 1) := by ring
    rw [zeros, ← List.append_assoc, ih]
    rw [product] at shifted
    exact shifted

theorem shortestIsExact {n w : Nat} (pos : 0 < n) (small : n < 10 ^ 16) (few : n < 2 ^ 53 ∨ 2 ∣ n)
    (reads : codeOfRatio w 1 = codeOfRatio n 1) (ends : w = n ∨ 10 ∣ w) : w = n := by
  have exact := exactOfWhole pos (few.imp_right fun even => ⟨even, by omega⟩)
  refine ends.elim id fun zeros => ?_
  have bound : n < 2 ^ 64 := by omega
  have wPos : 0 < w := by
    by_contra vanishing
    have zero : w = 0 := by omega
    have code := codeOfWholePos pos bound
    rw [← reads, zero] at code
    exact absurd code (by decide)
  have near := nearOfRatio wPos Nat.one_pos (reads ▸ wholeFinite bound)
  rw [reads, exact, Nat.cast_one, div_one] at near
  have within {j : Nat} (steps : exponent (codeOfRatio n 1) ≤ j) : 2 * w ≤ 2 * n + 2 ^ j ∧ 2 * n ≤ 2 * w + 2 ^ j := by
    have step : (2 : ℚ) ^ exponent (codeOfRatio n 1) ≤ 2 ^ (j : ℤ) := zpow_le_zpow_right₀ (by norm_num) steps
    rw [zpow_natCast] at step
    obtain ⟨low, high⟩ := abs_le.mp near
    unfold halfStep at low high
    have above : (2 * w : ℚ) ≤ 2 * n + 2 ^ j := by linarith
    have below : (2 * n : ℚ) ≤ 2 * w + 2 ^ j := by linarith
    exact ⟨by exact_mod_cast above, by exact_mod_cast below⟩
  rcases few with fine | even
  · have close := within (exponentOfWhole (j := 0) exact fine)
    omega
  · have close := within (exponentOfWhole (j := 1) exact (by omega))
    omega

theorem magnitudeOfWhole {s : Spelling} (least : s.leastPlain ≤ 0) {code D k : Nat} (finite : code < infinityCode)
    (codePos : 0 < code) (positive : 0 < D) (short : shortest code s.tieUp = ⟨D, k⟩) :
    s.magnitude code = if ((digitsOf (D * 10 ^ k)).length : ℤ) - 1 ≤ s.greatestPlain
      then digitsOf (D * 10 ^ k) ++ ".0".toList
      else s.scientific (digitsOf D) (((digitsOf (D * 10 ^ k)).length : ℤ) - 1) := by
  have digits := digitsOfShifted positive k
  have length : ((digitsOf D).length : ℤ) + k = (digitsOf (D * 10 ^ k)).length := by
    rw [← digits, List.length_append, Spelling.zeros, List.length_replicate]
    push_cast
    rfl
  have one : 0 < (digitsOf (D * 10 ^ k)).length := List.length_pos_iff.mpr (digitsNotNil _)
  have low : s.leastPlain ≤ ((digitsOf (D * 10 ^ k)).length : ℤ) - 1 := by omega
  have plain : Spelling.plain (digitsOf D) k = digitsOf (D * 10 ^ k) ++ ".0".toList := by
    rw [Spelling.plain, if_pos (Int.natCast_nonneg k), Int.toNat_natCast, digits]
  unfold Spelling.magnitude
  simp only [codePos.ne', finite.ne, if_false, short, length, low, decide_true, Bool.true_and, plain, decide_eq_true_eq]

theorem digitsInjective {n m : Nat} (same : digitsOf n = digitsOf m) : n = m := by
  rw [← natOfDigits n, same, natOfDigits]

theorem digitsUpTo (n k : Nat) : ((digitsOf n).length : ℤ) - 1 ≤ k ↔ n < 10 ^ (k + 1) := by
  have digits := Nat.length_toDigits_le_iff (b := 10) (n := n) (k := k + 1) (by decide) (by omega)
  have same : (digitsOf n).length = (Nat.toDigits 10 n).length := rfl
  omega

theorem markedScientific (s : Spelling) (digits : List Char) (lead : ℤ) : 'e' ∈ s.scientific digits lead := by
  simp [Spelling.scientific]

theorem plainUnmarked (n : Nat) : 'e' ∉ digitsOf n ++ ".0".toList := by
  intro mark
  rcases List.mem_append.mp mark with digit | zero
  · exact absurd (digitOfDigits digit) (by decide)
  · exact absurd zero (by decide)

theorem magnitudeOfShortest {s : Spelling} (least : s.leastPlain ≤ 0) (greatest : s.greatestPlain = 15) {code n : Nat}
    (finite : code < infinityCode) (codePos : 0 < code) (pos : 0 < n) (exact : exactValue code = n) :
    ∃ w : Nat, (w = n ∨ 10 ∣ w) ∧ codeOfRatio w 1 = code
      ∧ (w < 10 ^ 16 → s.magnitude code = digitsOf w ++ ".0".toList)
      ∧ (¬ w < 10 ^ 16 → 'e' ∈ s.magnitude code) := by
  obtain ⟨w, value, power, ends, reads⟩ := wholeOfShortest finite codePos pos exact s.tieUp
  generalize short : shortest code s.tieUp = d at value power
  obtain ⟨D, P⟩ := d
  obtain ⟨k, rfl⟩ := Int.eq_ofNat_of_zero_le power
  have product : D * 10 ^ k = w := by
    rw [zpow_natCast] at value
    exact_mod_cast value
  have positive : 0 < D := by
    refine Nat.pos_of_ne_zero fun zero => ?_
    rw [zero, zero_mul] at product
    rw [← reads, ← product] at codePos
    exact absurd codePos (by decide)
  have text := magnitudeOfWhole least finite codePos positive short
  have few : ((digitsOf w).length : ℤ) - 1 ≤ 15 ↔ w < 10 ^ 16 := digitsUpTo w 15
  rw [product, greatest] at text
  refine ⟨w, ends, reads, fun small => ?_, fun large => ?_⟩
  · rw [text, if_pos (few.mpr small)]
  · rw [text, if_neg (mt few.mp large)]
    exact markedScientific s _ _

theorem wholeText {s : Spelling} (least : s.leastPlain ≤ 0) (greatest : s.greatestPlain = 15) {n : Nat}
    (bound : n < 2 ^ 64) :
    s.magnitude (codeOfRatio n 1) = digitsOf n ++ ".0".toList ↔ n < 10 ^ 16 ∧ (n < 2 ^ 53 ∨ 2 ∣ n) := by
  rcases Nat.eq_zero_or_pos n with rfl | pos
  · exact iff_of_true rfl ⟨by decide, .inl (by decide)⟩
  obtain ⟨m, mPos, exact, parity⟩ := wholeOfWhole pos bound
  obtain ⟨w, ends, reads, plain, scientific⟩ :=
    magnitudeOfShortest least greatest (wholeFinite bound) (codeOfWholePos pos bound) mPos exact
  constructor
  · intro same
    by_cases small : w < 10 ^ 16
    · obtain rfl := digitsInjective (List.append_cancel_right (same.symm.trans (plain small)))
      refine ⟨small, parity.imp_right fun even => ?_⟩
      rcases ends with rfl | zeros
      · exact even
      · exact Nat.dvd_trans (by decide) zeros
    · exact absurd (same ▸ scientific small) (plainUnmarked n)
  · rintro ⟨small, few⟩
    have itself : m = n := by
      have same := exactOfWhole pos (few.imp_right fun even => ⟨even, by omega⟩)
      rw [exact] at same
      exact_mod_cast same
    subst itself
    obtain rfl := shortestIsExact pos small few reads ends
    exact plain small

end ConstraintDesk.Decimal
