import ConstraintDesk.Proofs.Decimal.Shortest

/-! The texts that numbers are written as. A text with a fraction or an exponent stands for one rational
number, reading it gives the binary number nearest to that, and so every finite binary number is read
back from its own text. -/
namespace ConstraintDesk.Decimal

structure IsDigits (cs : List Char) : Prop where
  notEmpty : cs ≠ []
  digits : ∀ c ∈ cs, isDigit c = true

theorem isDigitsOf (n : Nat) : IsDigits (digitsOf n) := ⟨digitsNotNil n, fun _ => digitOfDigits⟩

theorem isDigitsZero : IsDigits ['0'] := by
  refine ⟨by simp, fun c member => ?_⟩
  rw [List.mem_singleton.mp member]
  rfl

theorem IsDigits.append {front back : List Char} (h : IsDigits front) (rest : ∀ c ∈ back, isDigit c = true) :
    IsDigits (front ++ back) := by
  refine ⟨by simp [h.notEmpty], fun c member => ?_⟩
  rcases List.mem_append.mp member with left | right
  · exact h.digits c left
  · exact rest c right

theorem IsDigits.prepend {front back : List Char} (rest : ∀ c ∈ front, isDigit c = true) (h : IsDigits back) :
    IsDigits (front ++ back) := by
  refine ⟨by simp [h.notEmpty], fun c member => ?_⟩
  rcases List.mem_append.mp member with left | right
  · exact rest c left
  · exact h.digits c right

inductive Fraction : List Char → List Char → Prop
  | none : Fraction [] []
  | digits {ds : List Char} (h : IsDigits ds) : Fraction ('.' :: ds) ds

inductive Exponent : List Char → ℤ → Prop
  | none : Exponent [] 0
  | bare {ds : List Char} (h : IsDigits ds) : Exponent ('e' :: ds) (natOf ds)
  | plus {ds : List Char} (h : IsDigits ds) : Exponent ('e' :: '+' :: ds) (natOf ds)
  | minus {ds : List Char} (h : IsDigits ds) : Exponent ('e' :: '-' :: ds) (-(natOf ds : ℤ))

inductive IsSpelling : List Char → ℚ → Prop
  | parts {whole f fd e : List Char} {n : ℤ} {x : ℚ} (front : IsDigits whole) (fraction : Fraction f fd)
      (exponent : Exponent e n) (marked : f ≠ [] ∨ e ≠ [])
      (value : (natOf (whole ++ fd) : ℚ) * 10 ^ (n - fd.length) = x) : IsSpelling (whole ++ f ++ e) x

def Stops (cs : List Char) : Prop := ∀ c, cs.head? = some c → isDigit c = false

theorem takeDigits {ds rest : List Char} (digits : ∀ c ∈ ds, isDigit c = true) (stops : Stops rest) :
    (ds ++ rest).takeWhile isDigit = ds ∧ (ds ++ rest).dropWhile isDigit = rest := by
  have empty : rest.takeWhile isDigit = [] ∧ rest.dropWhile isDigit = rest := by
    cases rest with
    | nil => exact ⟨rfl, rfl⟩
    | cons c r =>
      have dark := stops c rfl
      simp [dark]
  rw [List.takeWhile_append_of_pos digits, List.dropWhile_append_of_pos digits, empty.1, empty.2]
  simp

def Begins (e : List Char) : Prop := ∀ c, e.head? = some c → c = 'e' ∨ c = 'E'

theorem Exponent.begins {e : List Char} {n : ℤ} (h : Exponent e n) : Begins e := by
  intro c front
  cases h <;> simp at front <;> exact .inl front.symm

theorem Begins.stops {e : List Char} (h : Begins e) : Stops e := by
  intro c front
  rcases h c front with rfl | rfl <;> rfl

theorem Fraction.stops {f fd e : List Char} (h : Fraction f fd) (k : Begins e) : Stops (f ++ e) := by
  cases h with
  | none => exact k.stops
  | digits => intro c front; simp at front; subst front; rfl

theorem IsDigits.nat {ds : List Char} (h : IsDigits ds) : nat? ds = some (natOf ds) := by
  have all : ds.all isDigit = true := List.all_eq_true.mpr h.digits
  simp [nat?, h.notEmpty, all]

theorem IsDigits.unsigned {ds : List Char} (h : IsDigits ds) : splitSign ds = (false, ds) := by
  cases ds with
  | nil => exact absurd rfl h.notEmpty
  | cons c r =>
    have digit := h.digits c (by simp)
    unfold splitSign
    split
    · next same => cases same; exact absurd digit (by decide)
    · next same => cases same; exact absurd digit (by decide)
    · rfl

theorem Exponent.read {e : List Char} {n : ℤ} (h : Exponent e n) : exponent? e = some n := by
  cases h with
  | none => rfl
  | bare h => simp [exponent?, h.unsigned, h.nat]
  | plus h => simp [exponent?, splitSign, h.nat]
  | minus h => simp [exponent?, splitSign, h.nat]

theorem magnitudeOfParts (negative : Bool) {whole f fd e : List Char} {n : ℤ} (front : IsDigits whole)
    (fraction : Fraction f fd) (begins : Begins e) (exponent : exponent? e = some n) :
    magnitude? negative (whole ++ (f ++ e))
      = some (Binary64.ofDecimal negative (natOf (whole ++ fd)) (n - fd.length)) := by
  have ends := takeDigits front.digits (fraction.stops begins)
  unfold magnitude?
  rw [ends.1, ends.2]
  cases fraction with
  | none =>
    simp only [List.nil_append]
    split
    · next r =>
      rcases begins '.' rfl with point | point <;> cases point
    · simp [exponent, front.notEmpty]
  | digits h =>
    have behind := takeDigits h.digits begins.stops
    simp [behind.1, behind.2, exponent, front.notEmpty]

theorem readSpelling {cs : List Char} {digits : Nat} {power : ℤ} (negative : Bool)
    (h : IsSpelling cs (digits * 10 ^ power)) :
    magnitude? negative cs = some (Binary64.ofDecimal negative digits power) := by
  obtain ⟨front, fraction, exponent, _, value⟩ := h
  rw [List.append_assoc, magnitudeOfParts negative front fraction exponent.begins exponent.read,
    Binary64.ofDecimalCongr negative value]

theorem IsSpelling.char {cs : List Char} {x : ℚ} {c : Char} (h : IsSpelling cs x) (member : c ∈ cs) :
    isDigit c = true ∨ c = '.' ∨ c = 'e' ∨ c = '+' ∨ c = '-' := by
  obtain ⟨front, fraction, exponent, -, -⟩ := h
  simp only [List.mem_append] at member
  rcases member with (left | middle) | right
  · exact Or.inl (front.digits c left)
  · cases fraction with
    | none => cases middle
    | digits h =>
      rcases List.mem_cons.mp middle with point | digit
      · exact Or.inr (Or.inl point)
      · exact Or.inl (h.digits c digit)
  · cases exponent with
    | none => cases right
    | bare h =>
      rcases List.mem_cons.mp right with mark | digit
      · exact Or.inr (Or.inr (Or.inl mark))
      · exact Or.inl (h.digits c digit)
    | plus h =>
      rcases List.mem_cons.mp right with mark | right
      · exact Or.inr (Or.inr (Or.inl mark))
      rcases List.mem_cons.mp right with sign | digit
      · exact Or.inr (Or.inr (Or.inr (Or.inl sign)))
      · exact Or.inl (h.digits c digit)
    | minus h =>
      rcases List.mem_cons.mp right with mark | right
      · exact Or.inr (Or.inr (Or.inl mark))
      rcases List.mem_cons.mp right with sign | digit
      · exact Or.inr (Or.inr (Or.inr (Or.inr sign)))
      · exact Or.inl (h.digits c digit)

theorem isDigitsZeros (n : Nat) : ∀ c ∈ Spelling.zeros n, isDigit c = true := fun _ => digitOfZeros

theorem plainSpells (n : Nat) (power : ℤ) :
    IsSpelling (Spelling.plain (digitsOf n) power) (n * 10 ^ power) := by
  have digits := isDigitsOf n
  have value := natOfDigits n
  unfold Spelling.plain
  simp only
  split
  · next whole =>
    obtain ⟨k, rfl⟩ := Int.eq_ofNat_of_zero_le whole
    have front : IsDigits (digitsOf n ++ Spelling.zeros k) := digits.append (isDigitsZeros _)
    have spelled := IsSpelling.parts front (.digits isDigitsZero) .none (Or.inl (by simp)) rfl
    have same : (natOf (digitsOf n ++ Spelling.zeros k ++ ['0']) : ℚ) * 10 ^ ((0 : ℤ) - ['0'].length)
        = n * 10 ^ (k : ℤ) := by
      rw [natOfAppend, natOfAppend, value, natOfZeros, zpow_natCast]
      simp [natOf, digitValue, Spelling.zeros]
    rw [same] at spelled
    simpa using spelled
  · next small =>
    split
    · next inside =>
      have cut : ((digitsOf n).length + power).toNat < (digitsOf n).length := by omega
      have front : IsDigits ((digitsOf n).take ((digitsOf n).length + power).toNat) := by
        refine ⟨fun empty => ?_, fun c member => digits.digits c (List.mem_of_mem_take member)⟩
        have length := congrArg List.length empty
        rw [List.length_take, List.length_nil] at length
        omega
      have back : IsDigits ((digitsOf n).drop ((digitsOf n).length + power).toNat) := by
        refine ⟨fun empty => ?_, fun c member => digits.digits c (List.mem_of_mem_drop member)⟩
        have length := congrArg List.length empty
        rw [List.length_drop, List.length_nil] at length
        omega
      have spelled := IsSpelling.parts front (.digits back) .none (Or.inl (by simp)) rfl
      rw [List.take_append_drop, value, List.length_drop, List.append_nil] at spelled
      have same : (0 : ℤ) - ((digitsOf n).length - ((digitsOf n).length + power).toNat : Nat) = power := by omega
      rwa [same] at spelled
    · next low =>
      have back : IsDigits (Spelling.zeros ((digitsOf n).length + power).natAbs ++ digitsOf n) :=
        digits.prepend (isDigitsZeros _)
      have spelled := IsSpelling.parts isDigitsZero (.digits back) .none (Or.inl (by simp)) rfl
      have same : (natOf (['0'] ++ (Spelling.zeros ((digitsOf n).length + power).natAbs ++ digitsOf n)) : ℚ) = n := by
        rw [natOfAppend, natOfAppend, natOfZeros, value]
        simp [natOf, digitValue]
      have length : (0 : ℤ) - (Spelling.zeros ((digitsOf n).length + power).natAbs ++ digitsOf n).length = power := by
        simp only [Spelling.zeros, List.length_append, List.length_replicate]
        omega
      rw [same, length, List.append_nil] at spelled
      simpa using spelled

theorem exponentSpells (plusSign : Bool) (lead : ℤ) :
    Exponent ('e' :: (if plusSign && 0 ≤ lead then ['+'] else []) ++ Spelling.intDigits lead) lead := by
  have digits := isDigitsOf lead.natAbs
  unfold Spelling.intDigits
  by_cases low : lead < 0
  · have minus := Exponent.minus digits
    rw [natOfDigits] at minus
    have value : -(lead.natAbs : ℤ) = lead := by omega
    rw [value] at minus
    simpa [low, not_le.mpr low] using minus
  · have value : (lead.natAbs : ℤ) = lead := by omega
    cases plusSign with
    | true =>
      have plus := Exponent.plus digits
      rw [natOfDigits, value] at plus
      simpa [low, not_lt.mp low] using plus
    | false =>
      have bare := Exponent.bare digits
      rw [natOfDigits, value] at bare
      simpa [low] using bare

theorem scientificSpells (s : Spelling) (n : Nat) (power : ℤ) :
    IsSpelling (s.scientific (digitsOf n) ((digitsOf n).length + power - 1)) (n * 10 ^ power) := by
  have digits := isDigitsOf n
  have value := natOfDigits n
  have exponent := exponentSpells s.plusSign ((digitsOf n).length + power - 1)
  revert digits value exponent
  cases digitsOf n with
  | nil => exact fun digits => absurd rfl digits.notEmpty
  | cons first rest =>
    intro digits value exponent
    have front : IsDigits [first] := ⟨by simp, by simpa using digits.digits first (by simp)⟩
    cases rest with
    | nil =>
      have spelled := IsSpelling.parts front .none exponent (Or.inr (by simp)) rfl
      simpa [Spelling.scientific, value] using spelled
    | cons second rest =>
      have back : IsDigits (second :: rest) := ⟨by simp, fun c member => digits.digits c (by simp [member])⟩
      have spelled := IsSpelling.parts front (.digits back) exponent (Or.inr (by simp)) rfl
      have joined : [first] ++ second :: rest = first :: second :: rest := rfl
      rw [joined, value] at spelled
      have same : ((first :: second :: rest).length : ℤ) + power - 1 - (second :: rest).length = power := by
        simp only [List.length_cons]
        omega
      rw [same] at spelled
      simpa [Spelling.scientific] using spelled

theorem magnitudeSpells (s : Spelling) {code : Nat} (finite : code < Binary64.infinityCode) :
    ∃ d : Decimal, IsSpelling (s.magnitude code) (d.digits * 10 ^ d.power) ∧ d.value.code = code := by
  unfold Spelling.magnitude
  by_cases zero : code = 0
  · refine ⟨⟨0, 0⟩, ?_, by simp [zero, value, Binary64.ofDecimal, Binary64.zero]⟩
    simpa [zero, Spelling.plain, digitsOf, Spelling.zeros] using plainSpells 0 0
  · refine ⟨shortest code s.tieUp, ?_, shortestReads (Nat.pos_of_ne_zero zero) finite s.tieUp⟩
    simp only [zero, finite.ne, if_false]
    split
    · exact plainSpells _ _
    · exact scientificSpells s _ _

theorem readMagnitude (s : Spelling) {x : Binary64} (finite : x.isFinite = true) :
    magnitude? x.negative (s.magnitude x.code) = some x := by
  obtain ⟨d, spelled, value⟩ := magnitudeSpells s (of_decide_eq_true finite)
  rw [readSpelling x.negative spelled]
  have negative := Binary64.ofDecimalNegative x.negative d.digits d.power
  have code := (Binary64.ofDecimalCode x.negative d.digits d.power).trans value
  cases x
  cases read : Binary64.ofDecimal _ d.digits d.power
  simp_all

theorem wholeSpells (n : Nat) : IsSpelling (digitsOf n ++ ".0".toList) (n * 10 ^ (0 : ℤ)) := by
  simpa [Spelling.plain, Spelling.zeros] using plainSpells n 0

theorem readWhole (negative : Bool) (n : Nat) :
    magnitude? negative (digitsOf n ++ ".0".toList) = some (Binary64.ofRatio negative n 1) := by
  rw [readSpelling negative (wholeSpells n), Binary64.ofDecimalEq]
  simp [Binary64.decimalRatio]

end ConstraintDesk.Decimal
