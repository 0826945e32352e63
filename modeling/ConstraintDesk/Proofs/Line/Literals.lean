import ConstraintDesk.Line.Document
import ConstraintDesk.Proofs.Line.Reading
import ConstraintDesk.Proofs.Model.Encoding

/-! Literals as they are written and read. A literal comes back as itself, but for an integer of a float
domain: it is written with a decimal point and comes back as a float. -/
namespace ConstraintDesk

def Literal.asWritten (domain : Domain) : Literal → Literal
  | .int i => if domain = .float then .float (Binary64.ofInt i.toInt) else .int i
  | l => l

theorem Literal.finiteAsWritten {l : Literal} (finite : l.IsFinite) (d : Domain) : (l.asWritten d).IsFinite := by
  cases l with
  | bool b => exact finite
  | int i =>
    have low : -2 ^ 63 ≤ i.toInt := i.le_toInt
    have high : i.toInt < 2 ^ 63 := i.toInt_lt
    cases d with
    | float => exact Binary64.ofIntFinite (by omega)
    | int | bool => exact finite
  | float x => exact finite

theorem Literal.fitsAsWritten {l : Literal} (fits : l.fits .float = true) : (l.asWritten .float).fits .float = true := by
  cases l with
  | bool b => cases fits
  | int i => rfl
  | float x => rfl

theorem Literal.asWrittenInt (l : Literal) : l.asWritten .int = l := by
  cases l <;> rfl

namespace Line

open Decimal (IsDigits IsSpelling digitsOf)

def sign (negative : Bool) : List Char := if negative then ['-'] else []

inductive IsNumeral (negative : Bool) : List Char → Literal → Prop
  | int {ds : List Char} {i : Int64} (digits : IsDigits ds) (value : Parser.integer? negative ds = some i) :
      IsNumeral negative ds (.int i)
  | float {w : List Char} {x : ℚ} {y : Binary64} (spelled : IsSpelling w x)
      (value : Decimal.magnitude? negative w = some y) : IsNumeral negative w (.float y)

theorem IsNumeral.start {negative : Bool} {w : List Char} {l : Literal} (h : IsNumeral negative w l) :
    ∃ c r, w = c :: r ∧ isDigit c = true := by
  have start {ds : List Char} (digits : IsDigits ds) : ∃ c r, ds = c :: r ∧ isDigit c = true := by
    obtain ⟨c, r, rfl⟩ := List.exists_cons_of_ne_nil digits.notEmpty
    exact ⟨c, r, rfl, digits.digits c (by simp)⟩
  cases h with
  | int digits value => exact start digits
  | float spelled value =>
    obtain ⟨front, -, -, -, -⟩ := spelled
    obtain ⟨c, r, rfl, digit⟩ := start front
    exact ⟨c, _, List.append_assoc _ _ _, digit⟩

theorem pieceOfNumeral {c : Char} {r rest : List Char} {kind : TokenKind} (digit : isDigit c = true)
    (found : number (c :: (r ++ rest)) = (kind, r.length + 1)) : IsPiece kind (c :: r) rest := by
  refine ⟨darkOfPlain (spaceOfDigit digit) (digitOther digit (by decide)) _, fun offset => ?_⟩
  exact tokensCons offset ((firstOfDigit digit _).trans found)

def numeralKind : Literal → TokenKind
  | .float _ => .decimal
  | _ => .integer

theorem IsNumeral.piece {negative : Bool} {w rest : List Char} {l : Literal} (h : IsNumeral negative w l)
    (ends : NumberEnds rest) : IsPiece (numeralKind l) w rest := by
  obtain ⟨c, r, rfl, digit⟩ := h.start
  refine pieceOfNumeral digit ?_
  rw [← List.cons_append]
  cases h with
  | int digits value => exact numberOfDigits digits ends
  | float spelled value => exact numberOfSpelling spelled ends

theorem pieceOfMinus {rest : List Char} : IsPiece .minus ['-'] rest :=
  ⟨darkOfPlain (by decide) (by decide) rest, fun offset => tokensOfMark rfl offset⟩

namespace Parser

def unsigned (negative : Bool) : Parser Literal := do
  match ← current with
  | none => failHere .noNumber
  | some t =>
    match t.kind with
    | .integer =>
      match integer? negative t.text with
      | some i => do skip; return .int i
      | none => failHere .hugeInteger
    | .decimal => do skip; return .float (decimal negative t.text)
    | _ => failHere .noNumber

theorem numberEq : Parser.number = (do
    let negative := (← current).any (·.kind = .minus)
    if negative then skip
    unsigned negative) := rfl

theorem readsUnsigned {negative : Bool} {gap w rest : List Char} {l : Literal} (numeral : IsNumeral negative w l)
    (ends : NumberEnds rest) (lead : Gap gap) : Reads (unsigned negative) (gap ++ (w ++ rest)) l rest := by
  have piece := numeral.piece ends
  -- The bounds of 64 bits are kept away from reduction.
  obtain ⟨read, same⟩ : ∃ read, read = integer? := ⟨_, rfl⟩
  unfold unsigned
  rw [← same]
  refine readsCurrent lead piece fun start => ?_
  cases numeral with
  | int digits value =>
    rw [← same] at value
    simp only [numeralKind, value]
    exact (readsSkip lead piece).bind (.pure _ _)
  | float spelled value =>
    simp only [numeralKind, decimal, value, Option.getD_some]
    exact (readsSkip lead piece).bind (.pure _ _)

theorem readsNumber {negative : Bool} {gap w rest : List Char} {l : Literal} (numeral : IsNumeral negative w l)
    (ends : NumberEnds rest) (lead : Gap gap) :
    Reads Parser.number (gap ++ (sign negative ++ (w ++ rest))) l rest := by
  rw [numberEq]
  cases negative with
  | false =>
    refine readsCurrent lead (numeral.piece ends) fun start => ?_
    have unmarked : decide (numeralKind l = .minus) = false := by cases l <;> rfl
    simp only [Option.any_some, unmarked, Bool.false_eq_true, if_false]
    exact readsUnsigned numeral ends lead
  | true =>
    refine readsCurrent lead pieceOfMinus fun start => ?_
    exact (readsSkip lead pieceOfMinus).bind (readsUnsigned numeral ends .none)

end Parser

theorem integerOfDigits (i : Int64) :
    Parser.integer? (decide (i.toInt < 0)) (digitsOf i.toInt.natAbs) = some i := by
  have low : -2 ^ 63 ≤ i.toInt := i.le_toInt
  have high : i.toInt < 2 ^ 63 := i.toInt_lt
  have signed : (if decide (i.toInt < 0) = true then -(i.toInt.natAbs : ℤ) else i.toInt.natAbs) = i.toInt := by
    by_cases below : i.toInt < 0
    · rw [if_pos (decide_eq_true below)]
      omega
    · rw [if_neg (by simpa using below)]
      omega
  simp only [Parser.integer?, Decimal.natOfDigits, signed, low, high, decide_true, Bool.and_self, if_true,
    Int64.ofInt_toInt]

theorem intDigitsSign (i : ℤ) : Spelling.intDigits i = sign (decide (i < 0)) ++ digitsOf i.natAbs := by
  unfold Spelling.intDigits sign
  by_cases below : i < 0
  · simp [below]
  · simp [below]

theorem writeSign (s : Spelling) (x : Binary64) : s.write x = sign x.negative ++ s.magnitude x.code := by
  unfold Spelling.write sign
  split <;> rfl

theorem numeralOfLiteral {l : Literal} {d : Domain} (fits : l.fits d = true) (numeric : d ≠ .bool)
    (finite : l.IsFinite) :
    ∃ negative w, l.textIn d = sign negative ++ w ∧ IsNumeral negative w (l.asWritten d) := by
  cases l with
  | bool b => exact absurd (of_decide_eq_true fits) numeric
  | int i =>
    cases d with
    | bool => exact absurd rfl numeric
    | int =>
      refine ⟨_, _, intDigitsSign i.toInt, ?_⟩
      exact .int (Decimal.isDigitsOf _) (integerOfDigits i)
    | float =>
      refine ⟨decide (i.toInt < 0), digitsOf i.toInt.natAbs ++ ".0".toList, ?_, ?_⟩
      · rw [← List.append_assoc, ← intDigitsSign]
        rfl
      · exact .float (Decimal.wholeSpells _) (Decimal.readWhole _ _)
  | float x =>
    cases d with
    | bool => exact absurd rfl numeric
    | int => cases fits
    | float =>
      have finite : x.isFinite = true := finite
      obtain ⟨decimal, spelled, -⟩ := Decimal.magnitudeSpells Literal.spelling (of_decide_eq_true finite)
      exact ⟨_, _, writeSign Literal.spelling x, .float spelled (Decimal.readMagnitude Literal.spelling finite)⟩

def beginsNumber (kind : TokenKind) : Prop := kind = .minus ∨ kind = .integer ∨ kind = .decimal

theorem pieceAheadOfNumeral {negative : Bool} {w rest : List Char} {l : Literal}
    (numeral : IsNumeral negative w l) (ends : NumberEnds rest) :
    ∃ kind v behind, sign negative ++ (w ++ rest) = v ++ behind ∧ IsPiece kind v behind ∧ beginsNumber kind := by
  cases negative with
  | true => exact ⟨.minus, ['-'], w ++ rest, rfl, pieceOfMinus, Or.inl rfl⟩
  | false => exact ⟨_, w, rest, rfl, numeral.piece ends, by cases l <;> simp [beginsNumber, numeralKind]⟩

namespace Parser

theorem readsGet {α : Type} {f : List Token → Parser α} {cs rest : List Char} {a : α}
    (h : ∀ ts, Reads (f ts) cs a rest) : Reads (get >>= f) cs a rest := by
  intro offset
  exact h (tokensFrom offset cs) offset

theorem pieceOfWord {c p : Char} {w : List Char} (start : isWordStart c = true)
    (word : w.all isWordChar = true) (stop : isWordChar p = false) (rest : List Char) :
    IsPiece (wordKind (c :: w)) (c :: w) (p :: rest) := by
  obtain ⟨space, comment, -⟩ := darkOfWordStart start
  exact ⟨darkOfPlain space comment _, fun offset => tokensOfWord start (List.all_eq_true.mp word) stop offset rest⟩

theorem readsLiteral {l : Literal} {d : Domain} (fits : l.fits d = true) (finite : l.IsFinite)
    {gap rest : List Char} (lead : Gap gap) :
    Reads literal (gap ++ (l.textIn d ++ ';' :: rest)) (l.asWritten d) (';' :: rest) := by
  unfold literal
  by_cases truth : d = .bool
  · cases l with
    | bool b =>
      cases b with
      | true =>
        have piece := pieceOfWord (c := 't') (w := "rue".toList) (by decide) (by decide) (p := ';') (by decide) rest
        exact (readsKind lead piece).bind ((readsSkip lead piece).bind (.pure _ _))
      | false =>
        have piece := pieceOfWord (c := 'f') (w := "alse".toList) (by decide) (by decide) (p := ';') (by decide) rest
        exact (readsKind lead piece).bind ((readsSkip lead piece).bind (.pure _ _))
    | int i =>
      subst truth
      cases fits
    | float x =>
      subst truth
      cases fits
  · obtain ⟨negative, w, text, numeral⟩ := numeralOfLiteral fits truth finite
    obtain ⟨kind, v, behind, same, piece, begins⟩ := pieceAheadOfNumeral numeral (numberEndsSemicolon rest)
    have number := readsNumber numeral (numberEndsSemicolon rest) lead
    rw [text, List.append_assoc]
    rw [same] at number ⊢
    refine (readsKind lead piece).bind ?_
    rcases begins with rfl | rfl | rfl <;> exact number

theorem widenWritten {l : Literal} {d : Domain} (fits : l.fits d = true) :
    widen? d (l.asWritten d) = some (l.asWritten d) := by
  cases l with
  | bool b => simp [widen?, Literal.asWritten, of_decide_eq_true fits]
  | int i =>
    cases d with
    | bool => cases fits
    | int => rfl
    | float => rfl
  | float x => simp [widen?, Literal.asWritten, of_decide_eq_true fits]

theorem readsValue {l : Literal} {d : Domain} (fits : l.fits d = true) (finite : l.IsFinite)
    {gap rest : List Char} (lead : Gap gap) :
    Reads (value d) (gap ++ (l.textIn d ++ ';' :: rest)) (l.asWritten d) (';' :: rest) := by
  unfold value
  refine readsGet fun start => (readsLiteral fits finite lead).bind ?_
  rw [widenWritten fits]
  exact .pure _ _

end Parser
end Line
end ConstraintDesk
