import ConstraintDesk.Proofs.Decimal.Spelling
import ConstraintDesk.Proofs.Line.Lexing
import ConstraintDesk.Proofs.Model.Validity

/-! The tokens of what statements are put together from: signs, gaps, words, names and numbers. Each
piece is told apart from the text behind it by the first character of that text. -/
namespace ConstraintDesk.Line

theorem tokensOfMark {p : Char} {rest : List Char} {kind : TokenKind} (mark : first p rest = (kind, 1))
    (offset : Nat) :
    tokensFrom offset (p :: rest) = ⟨kind, [p], offset⟩ :: tokensFrom (offset + Text.byteLength [p]) rest :=
  tokensCons (w := []) offset mark

theorem isBreakSpace : IsBreak ' ' := ⟨by decide, by decide, by decide, by decide⟩

theorem isBreakColon : IsBreak ':' := ⟨by decide, by decide, by decide, by decide⟩

theorem isBreakSemicolon : IsBreak ';' := ⟨by decide, by decide, by decide, by decide⟩

def StartsDark (cs : List Char) : Prop := ∀ c, cs.head? = some c → isSpace c = false ∧ c ≠ '%'

theorem tokensOfGap {rest : List Char} (dark : StartsDark rest) (offset : Nat) :
    tokensFrom offset (' ' :: rest) = ⟨.whitespace, [' '], offset⟩ :: tokensFrom (offset + 1) rest := by
  have empty : rest.takeWhile isSpace = [] := by
    cases rest with
    | nil => rfl
    | cons c r => simp [(dark c rfl).1]
  have found : first ' ' rest = (.whitespace, 1) := by
    unfold first
    rw [if_pos (by decide), empty]
    rfl
  exact tokensOfMark found offset

theorem darkOfWordStart {c : Char} (start : isWordStart c = true) : isSpace c = false ∧ c ≠ '%' ∧ c ≠ '\n' := by
  refine ⟨?_, ?_, ?_⟩
  · by_contra blank
    simp only [isSpace, Bool.not_eq_false, Bool.or_eq_true, decide_eq_true_eq] at blank
    rcases blank with (rfl | rfl) | rfl <;> exact absurd start (by decide)
  · rintro rfl
    exact absurd start (by decide)
  · rintro rfl
    exact absurd start (by decide)

theorem firstOfWord {c : Char} (start : isWordStart c = true) (r : List Char) :
    first c r = (wordKind (c :: r.takeWhile isWordChar), (r.takeWhile isWordChar).length + 1) := by
  obtain ⟨space, comment, newline⟩ := darkOfWordStart start
  unfold first
  rw [if_neg (by simp [space]), if_neg comment, if_neg newline, if_pos start]
  rfl

theorem tokensOfWord {c p : Char} {w : List Char} (start : isWordStart c = true)
    (word : ∀ d ∈ w, isWordChar d = true) (stop : isWordChar p = false) (offset : Nat) (rest : List Char) :
    tokensFrom offset (c :: (w ++ p :: rest))
      = ⟨wordKind (c :: w), c :: w, offset⟩
        :: tokensFrom (offset + Text.byteLength (c :: w)) (p :: rest) := by
  have all : (w ++ p :: rest).takeWhile isWordChar = w := by
    rw [List.takeWhile_append_of_pos word]
    simp [stop]
  refine tokensCons offset ?_
  rw [firstOfWord start, all]

theorem digitOther {c d : Char} (digit : isDigit c = true) (far : d.toNat < 48 ∨ 57 < d.toNat) : c ≠ d := by
  have range : 48 ≤ c.toNat ∧ c.toNat ≤ 57 := Decimal.digitRange digit
  rintro rfl
  omega

theorem spaceOfDigit {c : Char} (digit : isDigit c = true) : isSpace c = false := by
  have space := digitOther (d := ' ') digit (by decide)
  have tab := digitOther (d := '\t') digit (by decide)
  have back := digitOther (d := '\r') digit (by decide)
  simp [isSpace, space, tab, back]

theorem firstOfDigit {c : Char} (digit : isDigit c = true) (r : List Char) : first c r = number (c :: r) := by
  have range : 48 ≤ c.val.toNat ∧ c.val.toNat ≤ 57 := Decimal.digitRange digit
  have small : ('a').val.toNat = 97 := rfl
  have capital : ('A').val.toNat = 65 := rfl
  have line := digitOther (d := '_') digit (by decide)
  have word : isWordStart c = false := by
    simp only [isWordStart, Bool.or_eq_false_iff, Bool.and_eq_false_iff, decide_eq_false_iff_not, Char.le_def,
      UInt32.le_iff_toNat_le]
    exact ⟨⟨Or.inl (by omega), Or.inl (by omega)⟩, line⟩
  unfold first
  rw [if_neg (by simp [spaceOfDigit digit]), if_neg (digitOther digit (by decide)),
    if_neg (digitOther digit (by decide)), if_neg (by simp [word]), if_pos digit]

structure NumberEnds (rest : List Char) : Prop where
  digit : Decimal.Stops rest
  fraction : fractionLength rest = 0
  exponent : exponentLength rest = 0

theorem numberEndsSemicolon (rest : List Char) : NumberEnds (';' :: rest) :=
  ⟨fun c head => by cases head; decide, rfl, rfl⟩

theorem numberEndsColon (rest : List Char) : NumberEnds (':' :: rest) :=
  ⟨fun c head => by cases head; decide, rfl, rfl⟩

theorem numberEndsDots (rest : List Char) : NumberEnds ('.' :: '.' :: rest) :=
  ⟨fun c head => by cases head; decide, by simp [fractionLength, isDigit], rfl⟩

open Decimal (IsDigits IsSpelling Stops Fraction Exponent Begins takeDigits exponent? magnitude? magnitudeOfParts)

theorem numberOfDigits {ds rest : List Char} (digits : IsDigits ds) (ends : NumberEnds rest) :
    number (ds ++ rest) = (.integer, ds.length) := by
  have whole : (ds ++ rest).takeWhile isDigit = ds := (takeDigits digits.digits ends.digit).1
  simp only [number, whole, List.drop_left, ends.fraction, Nat.add_zero, ends.exponent, if_true]

theorem exponentStops {e rest : List Char} {n : ℤ} (exponent : Exponent e n) (stops : Stops rest) :
    Stops (e ++ rest) := by
  cases exponent with
  | none => exact stops
  | bare | plus | minus => exact fun c head => by cases head; decide

theorem fractionOfExponent {e rest : List Char} {n : ℤ} (exponent : Exponent e n) (nonempty : e ≠ []) :
    fractionLength (e ++ rest) = 0 := by
  cases exponent with
  | none => exact absurd rfl nonempty
  | bare | plus | minus => rfl

theorem exponentOfSpelled {e rest : List Char} {n : ℤ} (exponent : Exponent e n) (ends : NumberEnds rest) :
    exponentLength (e ++ rest) = e.length := by
  cases exponent with
  | none => exact ends.exponent
  | @bare ds digits =>
    obtain ⟨c, r, rfl⟩ := List.exists_cons_of_ne_nil digits.notEmpty
    have digit := digits.digits c (by simp)
    have plus : c ≠ '+' := by
      rintro rfl
      exact absurd digit (by decide)
    have minus : c ≠ '-' := by
      rintro rfl
      exact absurd digit (by decide)
    have run : (c :: (r ++ rest)).takeWhile isDigit = c :: r := (takeDigits digits.digits ends.digit).1
    simp [exponentLength, plus, minus, run]
    omega
  | @plus ds digits | @minus ds digits =>
    have run : (ds ++ rest).takeWhile isDigit = ds := (takeDigits digits.digits ends.digit).1
    simp [exponentLength, run, digits.notEmpty]
    omega

theorem fractionOfSpelled {f fd e rest : List Char} {n : ℤ} (fraction : Fraction f fd)
    (exponent : Exponent e n) (marked : f ≠ [] ∨ e ≠ []) (ends : NumberEnds rest) :
    fractionLength (f ++ (e ++ rest)) = f.length := by
  cases fraction with
  | none =>
    rw [List.nil_append]
    exact fractionOfExponent exponent (marked.resolve_left (· rfl))
  | digits h =>
    have run : (fd ++ (e ++ rest)).takeWhile isDigit = fd :=
      (takeDigits h.digits (exponentStops exponent ends.digit)).1
    simp [fractionLength, run, h.notEmpty]
    omega

theorem fractionStops {f fd e rest : List Char} {n : ℤ} (fraction : Fraction f fd)
    (exponent : Exponent e n) (ends : NumberEnds rest) : Stops (f ++ (e ++ rest)) := by
  cases fraction with
  | none =>
    rw [List.nil_append]
    exact exponentStops exponent ends.digit
  | digits h => exact fun c head => by cases head; decide

theorem numberOfSpelling {w rest : List Char} {x : ℚ} (spelled : IsSpelling w x) (ends : NumberEnds rest) :
    number (w ++ rest) = (.decimal, w.length) := by
  obtain ⟨front, fraction, exponent, marked, -⟩ := spelled
  rename_i whole f fd e n
  have digits : (whole ++ (f ++ (e ++ rest))).takeWhile isDigit = whole :=
    (takeDigits front.digits (fractionStops fraction exponent ends)).1
  have decimal := fractionOfSpelled fraction exponent marked ends
  have power := exponentOfSpelled exponent ends
  have behind : (whole ++ (f ++ (e ++ rest))).drop (whole.length + f.length) = e ++ rest := by
    rw [← List.append_assoc, ← List.length_append, List.drop_left]
  have nonzero : f.length + e.length ≠ 0 := by
    rcases marked with nonempty | nonempty
    · have := List.length_pos_iff.mpr nonempty
      omega
    · have := List.length_pos_iff.mpr nonempty
      omega
  rw [List.append_assoc, List.append_assoc]
  simp only [number, digits, List.drop_left, decimal, behind, power, nonzero, if_false, List.length_append]

theorem takenRun (q : Char → Bool) (r : List Char) : r.take (r.takeWhile q).length = r.takeWhile q :=
  (List.prefix_iff_eq_take.mp (List.takeWhile_prefix q)).symm

theorem digitsTaken {r : List Char} (nonzero : (r.takeWhile isDigit).length ≠ 0) : IsDigits (r.takeWhile isDigit) :=
  ⟨by simpa using nonzero, fun _ member => List.mem_takeWhile_imp member⟩

theorem fractionTaken (r : List Char) : ∃ fd, Fraction (r.take (fractionLength r)) fd := by
  unfold fractionLength
  split
  · next r =>
    simp only
    split
    · exact ⟨[], .none⟩
    · next nonzero =>
      rw [Nat.add_comm, List.take_succ_cons, takenRun]
      exact ⟨_, .digits (digitsTaken nonzero)⟩
  · exact ⟨[], .none⟩

theorem exponentOfDigits {mark : Char} (begins : mark = 'e' ∨ mark = 'E') {sign ds : List Char}
    (signed : sign = [] ∨ sign = ['+'] ∨ sign = ['-']) (digits : IsDigits ds) :
    ∃ n, exponent? (mark :: (sign ++ ds)) = some n := by
  rcases signed with rfl | rfl | rfl
  · simp [exponent?, begins, digits.unsigned, digits.nat]
  · simp [exponent?, begins, Decimal.splitSign, digits.nat]
  · simp [exponent?, begins, Decimal.splitSign, digits.nat]

theorem signTaken (r : List Char) : ∃ sign back, r = sign ++ back ∧ (sign = [] ∨ sign = ['+'] ∨ sign = ['-'])
    ∧ (if r.head? = some '+' || r.head? = some '-' then 1 else 0) = sign.length := by
  by_cases signed : (r.head? = some '+' || r.head? = some '-') = true
  · simp only [Bool.or_eq_true, decide_eq_true_eq] at signed
    rcases signed with head | head
    · obtain ⟨back, rfl⟩ := List.head?_eq_some_iff.mp head
      exact ⟨['+'], back, rfl, by simp, rfl⟩
    · obtain ⟨back, rfl⟩ := List.head?_eq_some_iff.mp head
      exact ⟨['-'], back, rfl, by simp, rfl⟩
  · exact ⟨[], r, rfl, .inl rfl, if_neg signed⟩

inductive IsExponent : List Char → Prop
  | none : IsExponent []
  | digits {mark : Char} {sign ds : List Char} (begins : mark = 'e' ∨ mark = 'E')
      (signed : sign = [] ∨ sign = ['+'] ∨ sign = ['-']) (digits : IsDigits ds) : IsExponent (mark :: (sign ++ ds))

theorem IsExponent.begins {e : List Char} (h : IsExponent e) : Begins e := by
  cases h with
  | none => exact fun _ front => (by cases front)
  | digits begins => exact fun c front => (by cases front; exact begins)

theorem IsExponent.value {e : List Char} (h : IsExponent e) : ∃ n, exponent? e = some n := by
  cases h with
  | none => exact ⟨0, rfl⟩
  | digits begins signed digits => exact exponentOfDigits begins signed digits

theorem exponentTaken (r : List Char) : IsExponent (r.take (exponentLength r)) := by
  cases r with
  | nil => exact .none
  | cons mark r =>
    by_cases begins : mark = 'e' ∨ mark = 'E'
    · have start : (mark = 'e' || mark = 'E') = true := by simpa using begins
      obtain ⟨sign, back, same, signed, length⟩ := signTaken r
      simp only [exponentLength, start, if_true, length]
      rw [same, List.drop_left]
      split
      · exact .none
      · next nonzero =>
        rw [Nat.add_assoc, Nat.add_comm, List.take_succ_cons, List.take_length_add_append, takenRun]
        exact .digits begins signed (digitsTaken nonzero)
    · have other : (mark = 'e' || mark = 'E') = false := by simpa using begins
      simpa only [exponentLength, other, Bool.false_eq_true, if_false, List.take_zero] using .none

theorem takeThree (cs : List Char) (whole fraction exponent : Nat) : cs.take (whole + fraction + exponent)
    = cs.take whole ++ ((cs.drop whole).take fraction ++ (cs.drop (whole + fraction)).take exponent) := by
  rw [List.take_add, List.take_add, List.append_assoc]

theorem magnitudeOfTaken (negative : Bool) {cs : List Char} (starts : (cs.takeWhile isDigit).length ≠ 0) :
    ∃ x, magnitude? negative (cs.take (Line.number cs).2) = some x := by
  obtain ⟨fd, fraction⟩ := fractionTaken (cs.drop (cs.takeWhile isDigit).length)
  have exponent := exponentTaken
    (cs.drop ((cs.takeWhile isDigit).length + fractionLength (cs.drop (cs.takeWhile isDigit).length)))
  obtain ⟨n, value⟩ := exponent.value
  simp only [Line.number, takeThree, takenRun]
  exact ⟨_, magnitudeOfParts negative (digitsTaken starts) fraction exponent.begins value⟩

def TokenKind.isPlain (k : TokenKind) : Bool :=
  !k.isTrivia && k ≠ .newline && k ≠ .invalid && k ≠ .colon && k ≠ .semicolon && k ≠ .equals

theorem wordKindPlain (word : List Char) : (wordKind word).isPlain = true := by
  unfold wordKind
  cases found : TokenKind.keywords.find? (fun k => k.1.toList = word) with
  | none => rfl
  | some k =>
    have member := List.mem_of_find?_eq_some found
    have all : ∀ k ∈ TokenKind.keywords, k.2.isPlain = true := by decide
    exact all k member

theorem numberPlain (cs : List Char) : (number cs).1.isPlain = true := by
  simp only [number]
  split <;> rfl

def markChar? : TokenKind → Option Char
  | .newline => some '\n'
  | .colon => some ':'
  | .semicolon => some ';'
  | .equals => some '='
  | .invalid => some '"'
  | _ => none

theorem markOfPlain {k : TokenKind} (plain : k.isPlain = true) : markChar? k = none := by
  cases k <;> first | rfl | cases plain

theorem charOfMark {c p : Char} {r : List Char} (mark : markChar? (first c r).1 = some p) : c = p := by
  have lexeme := lexemeOfFirst c r
  generalize first c r = token at lexeme mark
  cases lexeme with
  | newline same | colon same | semicolon same | equals same => exact same.trans (Option.some.inj mark)
  | quote same =>
    unfold Line.quote at mark
    split at mark
    · cases mark
    · cases mark
    · exact same.trans (Option.some.inj mark)
  | word => simp [markOfPlain (wordKindPlain _)] at mark
  | number => simp [markOfPlain (numberPlain _)] at mark
  | space | comment | minus | dots | symbol => cases mark

theorem wordKindNotDecimal (word : List Char) : wordKind word ≠ .decimal := by
  unfold wordKind
  cases found : TokenKind.keywords.find? (fun k => k.1.toList = word) with
  | none => simp
  | some k =>
    have member := List.mem_of_find?_eq_some found
    have all : ∀ k ∈ TokenKind.keywords, k.2 ≠ .decimal := by decide
    exact all k member

theorem digitOfDecimal {c : Char} {r : List Char} (decimal : (first c r).1 = .decimal) : isDigit c = true := by
  have lexeme := lexemeOfFirst c r
  generalize first c r = token at lexeme decimal
  cases lexeme with
  | number digit => exact digit
  | word => exact absurd decimal (wordKindNotDecimal _)
  | quote =>
    unfold Line.quote at decimal
    split at decimal <;> cases decimal
  | space | comment | newline | colon | semicolon | equals | minus | dots | symbol => cases decimal

theorem magnitudeOfDecimal {t : Token} {offset : Nat} {cs : List Char} (member : t ∈ tokensFrom offset cs)
    (decimal : t.kind = .decimal) (negative : Bool) : ∃ x, magnitude? negative t.text = some x := by
  obtain ⟨front, c, w, rest, -, found, text⟩ := tokenMember member
  have digit : isDigit c = true := digitOfDecimal (r := w ++ rest) (by rw [found, decimal])
  rw [firstOfDigit digit] at found
  have starts : ((c :: (w ++ rest)).takeWhile isDigit).length ≠ 0 := by simp [digit]
  have read := magnitudeOfTaken negative starts
  rw [found, List.take_succ_cons, List.take_left] at read
  rwa [text]

theorem triviaOfPlain {k : TokenKind} (plain : k.isPlain = true) : k.isTrivia = false := by
  cases k <;> first | rfl | cases plain

theorem triviaOfFirst {c : Char} {r : List Char} (trivia : (first c r).1.isTrivia = true) :
    isSpace c = true ∨ c = '%' := by
  have lexeme := lexemeOfFirst c r
  generalize first c r = token at lexeme trivia
  cases lexeme with
  | space blank => exact Or.inl blank
  | comment mark => exact Or.inr mark
  | word => simp [triviaOfPlain (wordKindPlain _)] at trivia
  | number => simp [triviaOfPlain (numberPlain _)] at trivia
  | quote =>
    unfold Line.quote at trivia
    split at trivia <;> cases trivia
  | newline | colon | semicolon | equals | minus | dots | symbol => cases trivia

theorem darkOfSolid {c : Char} {r : List Char} (solid : (first c r).1.isTrivia = false) :
    isSpace c = false ∧ c ≠ '%' := by
  constructor
  · by_contra blank
    have run : (first c r).1 = .whitespace := by
      unfold first
      rw [if_pos (by simpa using blank)]
    rw [run] at solid
    cases solid
  · rintro rfl
    cases solid

theorem spaceOfDark {c : Char} (dark : Text.isBlank c = false) : isSpace c = false := by
  by_contra blank
  simp only [isSpace, Bool.not_eq_false, Bool.or_eq_true, decide_eq_true_eq] at blank
  rcases blank with (rfl | rfl) | rfl <;> exact absurd dark (by decide)

theorem plainOfFirst {c : Char} (dark : Text.isBlank c = false) (free : isReserved c = false) (r : List Char) :
    (first c r).1.isPlain = true := by
  have lexeme := lexemeOfFirst c r
  simp only [isReserved, Bool.or_eq_false_iff, decide_eq_false_iff_not] at free
  obtain ⟨⟨⟨⟨colon, semicolon⟩, equals⟩, comment⟩, string⟩ := free
  generalize first c r = token at lexeme
  cases lexeme with
  | space blank => simp [spaceOfDark dark] at blank
  | newline mark =>
    subst mark
    exact absurd dark (by decide)
  | comment mark => exact absurd mark comment
  | quote mark => exact absurd mark string
  | colon mark => exact absurd mark colon
  | semicolon mark => exact absurd mark semicolon
  | equals mark => exact absurd mark equals
  | word => exact wordKindPlain _
  | number => exact numberPlain _
  | minus | dots | symbol => rfl

theorem plainChars {id : String} (name : IsName id) :
    ∀ c ∈ id.toList, isSpace c = false ∧ c ≠ '%' ∧ c ≠ '"' := by
  intro c member
  have free := name.free c member
  simp only [isReserved, Bool.or_eq_false_iff, decide_eq_false_iff_not] at free
  exact ⟨spaceOfDark (name.dark c member), free.1.2, free.2⟩

theorem plainOfName {id : String} (name : IsName id) {offset : Nat} {t : Token}
    (member : t ∈ tokensFrom offset id.toList) : t.kind.isPlain = true := by
  obtain ⟨front, c, w, rest, text, found, -⟩ := tokenMember member
  have inside : c ∈ id.toList := by simp [text]
  have plain := plainOfFirst (name.dark c inside) (name.free c inside) (w ++ rest)
  rwa [found] at plain

end ConstraintDesk.Line
