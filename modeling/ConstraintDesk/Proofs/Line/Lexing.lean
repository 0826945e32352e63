import ConstraintDesk.Line.Parser
import Mathlib

/-! The tokens of a text, and texts that are cut up without looking at what stands behind them. -/
namespace ConstraintDesk.Line

theorem takeWhileBefore {q : Char → Bool} {p : Char} (stop : q p = false) (r b : List Char) :
    (r ++ p :: b).takeWhile q = r.takeWhile q := by
  induction r with
  | nil => simp [stop]
  | cons c r ih => simp [List.takeWhile_cons, ih]

theorem takeWhileLength (q : Char → Bool) (r : List Char) : (r.takeWhile q).length ≤ r.length :=
  (List.takeWhile_sublist q).length_le

theorem takeWhileIff {q : Char → Bool} {w rest : List Char} : ((w ++ rest).takeWhile q).length = w.length
    ↔ (∀ c ∈ w, q c = true) ∧ ∀ c, rest.head? = some c → q c = false := by
  have whole := List.takeWhile_append_dropWhile (p := q) (l := w ++ rest)
  constructor
  · intro size
    obtain ⟨taken, left⟩ := List.append_inj whole size
    refine ⟨fun c inside => List.mem_takeWhile_imp (taken.symm ▸ inside), fun c head => ?_⟩
    have stopped := List.head?_dropWhile_not q (w ++ rest)
    rw [left, head] at stopped
    simpa using stopped
  · rintro ⟨inside, stops⟩
    rw [List.takeWhile_append_of_pos inside]
    cases rest with
    | nil => simp
    | cons c r => rw [List.takeWhile_cons_of_neg (by simp [stops c rfl]), List.append_nil]

theorem exponentBound (cs : List Char) : exponentLength cs ≤ cs.length := by
  cases cs with
  | nil => exact Nat.le_refl _
  | cons e r =>
    simp only [exponentLength, List.length_cons]
    generalize (if r.head? = some '+' || r.head? = some '-' then 1 else 0) = sign
    have digits := takeWhileLength isDigit (r.drop sign)
    rw [List.length_drop] at digits
    split
    · split <;> omega
    · exact Nat.zero_le _

theorem fractionBound (cs : List Char) : fractionLength cs ≤ cs.length := by
  unfold fractionLength
  split
  · next r =>
    have digits := takeWhileLength isDigit r
    simp only [List.length_cons]
    split <;> omega
  · exact Nat.zero_le _

theorem numberBound (cs : List Char) : (number cs).2 ≤ cs.length := by
  have whole := takeWhileLength isDigit cs
  have fraction := fractionBound (cs.drop (cs.takeWhile isDigit).length)
  have exponent := exponentBound
    (cs.drop ((cs.takeWhile isDigit).length + fractionLength (cs.drop (cs.takeWhile isDigit).length)))
  simp only [List.length_drop] at fraction exponent
  simp only [number]
  omega

theorem stringBound (cs : List Char) :
    (stringBody cs).1 + (stringBody cs).2.toNat ≤ cs.length := by
  fun_induction stringBody cs with
  | case1 => simp
  | case2 => simp
  | case3 c r more ih =>
    simp only [stringBody.longer, List.length_cons]
    omega
  | case4 => simp
  | case5 => simp
  | case6 c r pair quote back ih =>
    simp only [stringBody.longer, List.length_cons]
    omega

theorem quoteBound (r : List Char) : 1 ≤ (quote r).2 ∧ (quote r).2 ≤ r.length + 1 := by
  have body := stringBound r
  unfold quote
  split
  · next found => simp_all
  · simp
  · next found => simp_all

theorem numberStart {c : Char} (digit : isDigit c = true) (r : List Char) : 1 ≤ (number (c :: r)).2 := by
  simp only [number, List.takeWhile_cons, digit, if_true, List.length_cons]
  omega

inductive Lexeme (c : Char) (r : List Char) : TokenKind × Nat → Prop
  | space (blank : isSpace c = true) : Lexeme c r (.whitespace, (r.takeWhile isSpace).length + 1)
  | comment (mark : c = '%') : Lexeme c r (.comment, (r.takeWhile (· ≠ '\n')).length + 1)
  | newline (mark : c = '\n') : Lexeme c r (.newline, 1)
  | word (start : isWordStart c = true) :
      Lexeme c r (wordKind (c :: r.takeWhile isWordChar), (r.takeWhile isWordChar).length + 1)
  | number (digit : isDigit c = true) : Lexeme c r (number (c :: r))
  | quote (mark : c = '"') : Lexeme c r (quote r)
  | colon (mark : c = ':') : Lexeme c r (.colon, 1)
  | semicolon (mark : c = ';') : Lexeme c r (.semicolon, 1)
  | equals (mark : c = '=') : Lexeme c r (.equals, 1)
  | minus (mark : c = '-') : Lexeme c r (.minus, 1)
  | dots (again : r.head? = some '.') : Lexeme c r (.dotDot, 2)
  | symbol : Lexeme c r (.symbol, 1)

theorem lexemeOfFirst (c : Char) (r : List Char) : Lexeme c r (first c r) := by
  unfold first
  by_cases blank : isSpace c = true
  · rw [if_pos blank]
    exact .space blank
  rw [if_neg blank]
  by_cases mark : c = '%'
  · rw [if_pos mark]
    exact .comment mark
  rw [if_neg mark]
  by_cases mark : c = '\n'
  · rw [if_pos mark]
    exact .newline mark
  rw [if_neg mark]
  by_cases start : isWordStart c = true
  · rw [if_pos start]
    exact .word start
  rw [if_neg start]
  by_cases digit : isDigit c = true
  · rw [if_pos digit]
    exact .number digit
  rw [if_neg digit]
  by_cases mark : c = '"'
  · rw [if_pos mark]
    exact .quote mark
  rw [if_neg mark]
  by_cases mark : c = ':'
  · rw [if_pos mark]
    exact .colon mark
  rw [if_neg mark]
  by_cases mark : c = ';'
  · rw [if_pos mark]
    exact .semicolon mark
  rw [if_neg mark]
  by_cases mark : c = '='
  · rw [if_pos mark]
    exact .equals mark
  rw [if_neg mark]
  by_cases mark : c = '-'
  · rw [if_pos mark]
    exact .minus mark
  rw [if_neg mark]
  by_cases dots : (c = '.' && r.head? = some '.') = true
  · rw [if_pos dots]
    exact .dots (by simp_all)
  rw [if_neg dots]
  exact .symbol

theorem spaceRun {c : Char} {w rest : List Char} {kind : TokenKind} (space : isSpace c = true) :
    first c (w ++ rest) = (kind, w.length + 1) ↔ kind = .whitespace ∧ (∀ d ∈ w, isSpace d = true)
      ∧ ∀ d, rest.head? = some d → isSpace d = false := by
  rw [first, if_pos space, Prod.mk.injEq, Nat.succ_inj, takeWhileIff, eq_comm]

theorem commentRun {w rest : List Char} {kind : TokenKind} : first '%' (w ++ rest) = (kind, w.length + 1)
    ↔ kind = .comment ∧ (∀ d ∈ w, d ≠ '\n') ∧ ∀ d, rest.head? = some d → d = '\n' := by
  have run : first '%' (w ++ rest) = (.comment, ((w ++ rest).takeWhile (· ≠ '\n')).length + 1) := rfl
  rw [run, Prod.mk.injEq, Nat.succ_inj, takeWhileIff, eq_comm]
  simp

theorem firstBound (c : Char) (r : List Char) : 1 ≤ (first c r).2 ∧ (first c r).2 ≤ r.length + 1 := by
  have lexeme := lexemeOfFirst c r
  generalize first c r = token at lexeme
  cases lexeme with
  | space => exact ⟨by simp, by simpa using takeWhileLength isSpace r⟩
  | comment => exact ⟨by simp, by simpa using takeWhileLength (· ≠ '\n') r⟩
  | word => exact ⟨by simp, by simpa using takeWhileLength isWordChar r⟩
  | number digit => exact ⟨numberStart digit r, by simpa using numberBound (c :: r)⟩
  | quote => exact quoteBound r
  | dots again =>
    cases r with
    | nil => cases again
    | cons d r => simp
  | newline | colon | semicolon | equals | minus | symbol => simp

structure IsBreak (p : Char) : Prop where
  word : isWordChar p = false
  point : p ≠ '.'
  plus : p ≠ '+'
  minus : p ≠ '-'

variable {p : Char} (stop : IsBreak p)

include stop

theorem IsBreak.digit : isDigit p = false := by
  have word := stop.word
  simp only [isWordChar, Bool.or_eq_false_iff] at word
  exact word.2

theorem exponentBefore (r b : List Char) : exponentLength (r ++ p :: b) = exponentLength r := by
  cases r with
  | nil =>
    have unmarked : ¬ (p = 'e' ∨ p = 'E') := by
      rintro (rfl | rfl) <;> exact absurd stop.word (by decide)
    simp only [List.nil_append, exponentLength, Bool.or_eq_true, decide_eq_true_eq, unmarked, if_false]
  | cons e r =>
    have sign : ((r ++ p :: b).head? = some '+' || (r ++ p :: b).head? = some '-')
        = (r.head? = some '+' || r.head? = some '-') := by
      cases r with
      | nil => simp [stop.plus, stop.minus]
      | cons c r => rfl
    simp only [List.cons_append, exponentLength, sign]
    cases r with
    | nil => simp [stop.digit]
    | cons c r =>
      split
      · split
        · rw [List.cons_append, List.drop_one, List.drop_one, List.tail_cons, List.tail_cons,
            takeWhileBefore stop.digit]
        · rw [List.drop_zero, List.drop_zero, takeWhileBefore stop.digit]
      · rfl

theorem fractionBefore (r b : List Char) : fractionLength (r ++ p :: b) = fractionLength r := by
  cases r with
  | nil =>
    simp only [List.nil_append]
    unfold fractionLength
    split
    · next same => exact absurd (List.cons.inj same).1 stop.point
    · rfl
  | cons c r =>
    by_cases point : c = '.'
    · simp only [point, List.cons_append, fractionLength, takeWhileBefore stop.digit]
    · simp [fractionLength, point]

theorem numberBefore (cs b : List Char) : number (cs ++ p :: b) = number cs := by
  have whole := takeWhileBefore stop.digit cs b
  have wholeBound := takeWhileLength isDigit cs
  have fractionBound := fractionBound (cs.drop (cs.takeWhile isDigit).length)
  rw [List.length_drop] at fractionBound
  have fraction := fractionBefore stop (cs.drop (cs.takeWhile isDigit).length) b
  rw [← List.drop_append_of_le_length wholeBound] at fraction
  have exponent := exponentBefore stop
    (cs.drop ((cs.takeWhile isDigit).length + fractionLength (cs.drop (cs.takeWhile isDigit).length))) b
  rw [← List.drop_append_of_le_length (by omega)] at exponent
  simp only [number, whole, fraction, exponent]

theorem firstBefore {c : Char} (space : isSpace c = true → isSpace p = false) (comment : c ≠ '%')
    (string : c ≠ '"') (r b : List Char) : first c (r ++ p :: b) = first c r := by
  unfold first
  -- Only the rules for white space, words, numbers and the two dots look behind the first character.
  by_cases blank : isSpace c = true
  · rw [if_pos blank, if_pos blank, takeWhileBefore (space blank)]
  rw [if_neg blank, if_neg blank, if_neg comment, if_neg comment]
  by_cases start : isWordStart c = true
  · rw [if_pos start, if_pos start, takeWhileBefore stop.word]
  rw [if_neg start, if_neg start, ← List.cons_append, numberBefore stop, if_neg string, if_neg string]
  have head : ((r ++ p :: b).head? = some '.') ↔ (r.head? = some '.') := by
    cases r with
    | nil => simp [stop.point]
    | cons d r => rfl
  simp only [head]

omit stop

theorem tokensNil (offset : Nat) : tokensFrom offset [] = [] := by
  unfold tokensFrom
  rfl

theorem tokensCons (offset : Nat) {c : Char} {w rest : List Char} {kind : TokenKind}
    (found : first c (w ++ rest) = (kind, w.length + 1)) :
    tokensFrom offset (c :: (w ++ rest))
      = ⟨kind, c :: w, offset⟩ :: tokensFrom (offset + Text.byteLength (c :: w)) rest := by
  rw [tokensFrom, found]
  simp

theorem firstTakes (c : Char) (r : List Char) :
    ∃ w rest, r = w ++ rest ∧ first c r = ((first c r).1, w.length + 1) := by
  have bound := firstBound c r
  refine ⟨r.take ((first c r).2 - 1), r.drop ((first c r).2 - 1), by simp, Prod.ext rfl ?_⟩
  rw [List.length_take]
  omega

@[elab_as_elim]
theorem byTokens {motive : List Char → Prop} (nil : motive [])
    (token : ∀ c w rest kind, first c (w ++ rest) = (kind, w.length + 1) → motive rest →
      motive (c :: (w ++ rest))) (cs : List Char) : motive cs := by
  induction length : cs.length using Nat.strong_induction_on generalizing cs with
  | _ n ih =>
    cases cs with
    | nil => exact nil
    | cons c r =>
      obtain ⟨w, rest, rfl, found⟩ := firstTakes c r
      refine token c w rest _ found (ih rest.length ?_ rest rfl)
      rw [← length, List.length_cons, List.length_append]
      omega

theorem byteLengthAppend (front back : List Char) :
    Text.byteLength (front ++ back) = Text.byteLength front + Text.byteLength back := by
  simp [Text.byteLength]

theorem textOfTokens (offset : Nat) (cs : List Char) : textOf (tokensFrom offset cs) = cs := by
  induction cs using byTokens generalizing offset with
  | nil => rw [tokensNil]; rfl
  | token c w rest kind found ih =>
    rw [tokensCons offset found, textOf, List.flatMap_cons]
    exact congrArg (c :: w ++ ·) (ih _)

theorem tokensSplit {offset : Nat} {cs : List Char} {front rest : List Token}
    (split : tokensFrom offset cs = front ++ rest) :
    ∃ behind, cs = textOf front ++ behind ∧ rest = tokensFrom (offset + Text.byteLength (textOf front)) behind := by
  induction front generalizing offset cs with
  | nil => exact ⟨cs, rfl, split.symm⟩
  | cons t front ih =>
    cases cs with
    | nil => rw [tokensNil] at split; cases split
    | cons c r =>
      obtain ⟨w, later, rfl, found⟩ := firstTakes c r
      rw [tokensCons offset found, List.cons_append, List.cons.injEq] at split
      obtain ⟨rfl, split⟩ := split
      obtain ⟨behind, text, rest⟩ := ih split
      refine ⟨behind, ?_, ?_⟩
      · rw [text]
        exact (List.append_assoc (c :: w) _ _).symm
      · rw [rest, Nat.add_assoc, ← byteLengthAppend]
        rfl

def Token.lexeme (t : Token) : TokenKind × List Char := (t.kind, t.text)

theorem lexemesOfTokens (offset : Nat) (cs : List Char) :
    (tokensFrom offset cs).map Token.lexeme = (tokens cs).map Token.lexeme := by
  unfold tokens
  generalize 0 = other
  induction cs using byTokens generalizing offset other with
  | nil => rw [tokensNil, tokensNil]
  | token c w rest kind found ih =>
    rw [tokensCons offset found, tokensCons other found, List.map_cons, List.map_cons, ih]
    rfl

theorem kindsOfTokens (offset : Nat) (cs : List Char) :
    (tokensFrom offset cs).map (·.kind) = (tokens cs).map (·.kind) := by
  have kinds := congrArg (List.map Prod.fst) (lexemesOfTokens offset cs)
  rwa [List.map_map, List.map_map] at kinds

theorem tokenMember {t : Token} {offset : Nat} {cs : List Char} (member : t ∈ tokensFrom offset cs) :
    ∃ front c w rest, cs = front ++ c :: (w ++ rest) ∧ first c (w ++ rest) = (t.kind, w.length + 1)
      ∧ t.text = c :: w := by
  induction cs using byTokens generalizing offset with
  | nil => rw [tokensNil] at member; cases member
  | token c w rest kind found ih =>
    rw [tokensCons offset found] at member
    rcases List.mem_cons.mp member with rfl | later
    · exact ⟨[], c, w, rest, rfl, found, rfl⟩
    · obtain ⟨front, d, v, behind, rfl, same, text⟩ := ih later
      exact ⟨c :: (w ++ front), d, v, behind, by simp, same, text⟩

theorem startOfTokens {t : Token} {offset : Nat} {cs : List Char}
    (head : (tokensFrom offset cs).head? = some t) : t.start = offset := by
  induction cs using byTokens with
  | nil => rw [tokensNil] at head; cases head
  | token c w rest kind found _ =>
    rw [tokensCons offset found] at head
    cases head
    rfl

theorem startOfCons {t : Token} {rest : List Token} {offset : Nat} {cs : List Char}
    (cut : tokensFrom offset cs = t :: rest) : t.start = offset :=
  startOfTokens (by rw [cut, List.head?_cons])

theorem chainOfTokens (offset : Nat) (cs : List Char) :
    (tokensFrom offset cs).IsChain (fun a b => a.finish = b.start) := by
  induction cs using byTokens generalizing offset with
  | nil => rw [tokensNil]; exact .nil
  | token c w rest kind found ih =>
    rw [tokensCons offset found]
    refine List.isChain_cons.mpr ⟨fun t head => ?_, ih _⟩
    exact (startOfTokens head).symm

theorem tokenNotEmpty {t : Token} {offset : Nat} {cs : List Char} (member : t ∈ tokensFrom offset cs) :
    t.start < t.finish := by
  obtain ⟨front, c, w, rest, -, -, text⟩ := tokenMember member
  have size := c.utf8Size_pos
  simp only [Token.finish, text, Text.byteLength, List.map_cons, List.sum_cons]
  omega

theorem tokensBefore (stop : IsBreak p) {cs : List Char}
    (plain : ∀ c ∈ cs, isSpace c = false ∧ c ≠ '%' ∧ c ≠ '"') (offset : Nat) (b : List Char) :
    tokensFrom offset (cs ++ p :: b)
      = tokensFrom offset cs ++ tokensFrom (offset + Text.byteLength cs) (p :: b) := by
  induction cs using byTokens generalizing offset with
  | nil => rw [tokensNil]; rfl
  | token c w rest kind found ih =>
    obtain ⟨space, comment, string⟩ := plain c (by simp)
    have still := firstBefore stop (fun blank => by simp [space] at blank) comment string (w ++ rest) b
    rw [List.append_assoc, found] at still
    have later := ih (fun d member => plain d (by simp [member]))
      (offset + Text.byteLength (c :: w))
    rw [List.cons_append, List.append_assoc, tokensCons offset still, tokensCons offset found, later,
      List.cons_append, Nat.add_assoc, ← byteLengthAppend]
    rfl

end ConstraintDesk.Line
