import ConstraintDesk.Proofs.Line.Strings

/-! The shapes that each kind of token can have, and how far the lexer goes along each of them: no shape that a text
starts with goes further. -/
namespace ConstraintDesk.Line

open Decimal (IsDigits Fraction Stops takeDigits)

structure IsSymbol (c : Char) : Prop where
  space : isSpace c = false
  word : isWordChar c = false
  mark : c ∉ ['\n', '%', ':', ';', '=', '-']

inductive IsLexeme : TokenKind → List Char → Prop
  | whitespace {c : Char} {w : List Char} (blank : ∀ d ∈ c :: w, isSpace d = true) : IsLexeme .whitespace (c :: w)
  | comment {w : List Char} (line : ∀ d ∈ w, d ≠ '\n') : IsLexeme .comment ('%' :: w)
  | newline : IsLexeme .newline ['\n']
  | keyword {word : String} {kind : TokenKind} (member : (word, kind) ∈ TokenKind.keywords) :
      IsLexeme kind word.toList
  | identifier {c : Char} {w : List Char} (start : isWordStart c = true) (word : ∀ d ∈ w, isWordChar d = true) :
      IsLexeme .identifier (c :: w)
  | integer {ds : List Char} (digits : IsDigits ds) : IsLexeme .integer ds
  | decimal {ds f fd e : List Char} (digits : IsDigits ds) (fraction : Fraction f fd) (exponent : IsExponent e)
      (marked : f ≠ [] ∨ e ≠ []) : IsLexeme .decimal (ds ++ (f ++ e))
  | string {body : List Char} (inside : IsBody body) : IsLexeme .string ('"' :: (body ++ ['"']))
  | dotDot : IsLexeme .dotDot ['.', '.']
  | colon : IsLexeme .colon [':']
  | semicolon : IsLexeme .semicolon [';']
  | equals : IsLexeme .equals ['=']
  | minus : IsLexeme .minus ['-']
  | symbol {c : Char} (symbol : IsSymbol c) : IsLexeme .symbol [c]

structure IsOpen (cs body : List Char) : Prop where
  ahead : '"' :: body <+: cs
  inside : IsBody body
  notEmpty : body ≠ []
  longest : ∀ other, IsBody other → '"' :: other <+: cs → other.length ≤ body.length
  unclosed : ∀ other, IsBody other → ¬ '"' :: (other ++ ['"']) <+: cs

theorem prefixEq {α : Type} {a b cs : List α} (one : a <+: cs) (two : b <+: cs) (size : a.length = b.length) :
    a = b :=
  (List.prefix_of_prefix_length_le one two (Nat.le_of_eq size)).eq_of_length size

theorem IsOpen.unique {cs body other : List Char} (one : IsOpen cs body) (two : IsOpen cs other) : body = other := by
  have size := Nat.le_antisymm (two.longest body one.inside one.ahead) (one.longest other two.inside two.ahead)
  exact (List.cons.inj (prefixEq one.ahead two.ahead (by simpa using size))).2

theorem runAhead {q : Char → Bool} {u v x : List Char} (inside : ∀ c ∈ u, q c = true) (ahead : u ++ v <+: x)
    (stops : ∀ c, v.head? = some c → q c = false) :
    u.length ≤ (x.takeWhile q).length ∧ (v = [] ∨ v <+: x.drop (x.takeWhile q).length) := by
  obtain ⟨rest, rfl⟩ := ahead
  rw [List.append_assoc, List.takeWhile_append_of_pos inside, List.length_append]
  refine ⟨Nat.le_add_right _ _, ?_⟩
  cases v with
  | nil => exact .inl rfl
  | cons c v =>
    rw [List.cons_append, List.takeWhile_cons_of_neg (by simp [stops c rfl]), List.length_nil, Nat.add_zero,
      List.drop_left]
    exact .inr (List.prefix_append (c :: v) rest)

theorem runWithin {q : Char → Bool} {u x : List Char} (inside : ∀ c ∈ u, q c = true) (ahead : u <+: x) :
    u.length ≤ (x.takeWhile q).length :=
  (runAhead (v := []) inside (by rwa [List.append_nil]) (by simp)).1

section Numbers

variable {ds f fd e x : List Char}

theorem IsExponent.bound (h : IsExponent e) (ahead : e <+: x) : e.length ≤ exponentLength x := by
  obtain ⟨rest, rfl⟩ := ahead
  cases h with
  | none => exact Nat.zero_le _
  | @digits mark sign ds begins signed digits =>
    have start : (mark = 'e' || mark = 'E') = true := by simpa using begins
    have run := runWithin (q := isDigit) digits.digits (List.prefix_append ds rest)
    have positive := List.length_pos_iff.mpr digits.notEmpty
    obtain ⟨c, r, rfl⟩ := List.exists_cons_of_ne_nil digits.notEmpty
    have digit := digits.digits c List.mem_cons_self
    have plus : c ≠ '+' := digitOther digit (by decide)
    have minus : c ≠ '-' := digitOther digit (by decide)
    have taken : (if (sign ++ (c :: r) ++ rest).head? = .some '+' || (sign ++ (c :: r) ++ rest).head? = .some '-'
        then 1 else 0) = sign.length := by
      rcases signed with rfl | rfl | rfl <;> simp [plus, minus]
    rw [List.cons_append, exponentLength, if_pos start]
    simp only [taken]
    rw [List.append_assoc, List.drop_left, if_neg (by omega)]
    simp only [List.length_cons, List.length_append] at run ⊢
    omega

theorem fractionOfBegins {c : Char} (begins : c = 'e' ∨ c = 'E') (r : List Char) : fractionLength (c :: r) = 0 := by
  rcases begins with rfl | rfl <;> rfl

theorem fractionLongest (fraction : Fraction f fd) (exponent : IsExponent e) (ahead : f ++ e <+: x) :
    f.length + e.length ≤ fractionLength x + exponentLength (x.drop (fractionLength x)) := by
  cases fraction with
  | none =>
    cases e with
    | nil => exact Nat.zero_le _
    | cons mark e =>
      have zero : fractionLength x = 0 := by
        obtain ⟨rest, rfl⟩ := ahead
        exact fractionOfBegins (exponent.begins mark rfl) _
      rw [zero, List.length_nil, Nat.zero_add, Nat.zero_add, List.drop_zero]
      exact exponent.bound ahead
  | digits digits =>
    obtain ⟨y, rfl⟩ : ∃ y, x = '.' :: y := by
      obtain ⟨rest, rfl⟩ := ahead
      exact ⟨_, rfl⟩
    rw [List.cons_append, List.cons_prefix_cons] at ahead
    obtain ⟨run, behind⟩ := runAhead (q := isDigit) digits.digits ahead.2 exponent.begins.stops
    have positive := List.length_pos_iff.mpr digits.notEmpty
    have length : fractionLength ('.' :: y) = 1 + (y.takeWhile isDigit).length := by
      rw [fractionLength, if_neg (by omega)]
    rw [length, Nat.add_comm 1, List.drop_succ_cons, List.length_cons]
    rcases behind with rfl | behind
    · rw [List.length_nil]
      omega
    · have power := exponent.bound behind
      omega

theorem numberLongest (digits : IsDigits ds) (fraction : Fraction f fd) (exponent : IsExponent e)
    (ahead : ds ++ (f ++ e) <+: x) : (ds ++ (f ++ e)).length ≤ (number x).2 := by
  obtain ⟨run, behind⟩ := runAhead (q := isDigit) digits.digits ahead (fraction.stops exponent.begins)
  simp only [number, List.length_append]
  rcases behind with empty | behind
  · obtain ⟨rfl, rfl⟩ := List.append_eq_nil_iff.mp empty
    rw [List.length_nil]
    omega
  · have parts := fractionLongest fraction exponent behind
    rw [List.drop_drop] at parts
    omega

theorem numberShape {cs : List Char} (starts : (cs.takeWhile isDigit).length ≠ 0) :
    IsLexeme (number cs).1 (cs.take (number cs).2) := by
  have digits := digitsTaken starts
  obtain ⟨fd, fraction⟩ := fractionTaken (cs.drop (cs.takeWhile isDigit).length)
  have fractionSize := fractionBound (cs.drop (cs.takeWhile isDigit).length)
  have exponent := exponentTaken
    (cs.drop ((cs.takeWhile isDigit).length + fractionLength (cs.drop (cs.takeWhile isDigit).length)))
  have exponentSize := exponentBound
    (cs.drop ((cs.takeWhile isDigit).length + fractionLength (cs.drop (cs.takeWhile isDigit).length)))
  simp only [number]
  split
  · next whole =>
    rw [Nat.add_assoc, whole, Nat.add_zero, takenRun]
    exact .integer digits
  · next nonzero =>
    rw [takeThree, takenRun]
    refine .decimal digits fraction exponent ?_
    by_contra unmarked
    rw [not_or, not_not, not_not, ← List.length_eq_zero_iff, ← List.length_eq_zero_iff,
      List.length_take_of_le fractionSize, List.length_take_of_le exponentSize] at unmarked
    omega

theorem numberKind (cs : List Char) :
    ((number cs).1 = .integer ∧ (number cs).2 = (cs.takeWhile isDigit).length)
      ∨ (number cs).1 = .decimal ∧ (cs.takeWhile isDigit).length < (number cs).2 := by
  simp only [number]
  split
  · exact .inl ⟨rfl, by omega⟩
  · exact .inr ⟨rfl, by omega⟩

theorem integerKind (digits : IsDigits ds) {rest : List Char} (size : (number (ds ++ rest)).2 = ds.length) :
    (number (ds ++ rest)).1 = .integer := by
  have run := runWithin (q := isDigit) digits.digits (List.prefix_append ds rest)
  rcases numberKind (ds ++ rest) with ⟨kind, -⟩ | ⟨-, more⟩
  · exact kind
  · omega

theorem decimalKind (digits : IsDigits ds) (fraction : Fraction f fd) (exponent : IsExponent e)
    (marked : f ≠ [] ∨ e ≠ []) (rest : List Char) : (number (ds ++ (f ++ e) ++ rest)).1 = .decimal := by
  have stops := fraction.stops exponent.begins
  have longest := numberLongest digits fraction exponent (List.prefix_append _ rest)
  have nonempty : f ++ e ≠ [] := by simpa [imp_iff_not_or] using marked
  obtain ⟨d, t, same⟩ := List.exists_cons_of_ne_nil nonempty
  rw [same] at stops longest ⊢
  have run : (ds ++ d :: t ++ rest).takeWhile isDigit = ds := by
    have stop : Stops (d :: t ++ rest) := fun c head => stops c (by simpa using head)
    rw [List.append_assoc]
    exact (takeDigits digits.digits stop).1
  rcases numberKind (ds ++ d :: t ++ rest) with ⟨-, size⟩ | ⟨kind, -⟩
  · rw [size, run, List.length_append, List.length_cons] at longest
    omega
  · exact kind

end Numbers

section Words

theorem wordOfKeyword {word : String} {kind : TokenKind} (member : (word, kind) ∈ TokenKind.keywords) :
    ∃ c w, word.toList = c :: w ∧ isWordStart c = true ∧ (∀ d ∈ w, isWordChar d = true) ∧ wordKind (c :: w) = kind := by
  have all : ∀ k ∈ TokenKind.keywords, k.1.toList.head?.any isWordStart = true ∧ k.1.toList.tail.all isWordChar = true
      ∧ wordKind k.1.toList = k.2 := by decide +kernel
  obtain ⟨start, tail, same⟩ := all _ member
  dsimp only at start tail same
  generalize word.toList = cs at start tail same
  cases cs with
  | nil => cases start
  | cons c w => exact ⟨c, w, rfl, start, List.all_eq_true.mp tail, same⟩

theorem wordShape {c : Char} {w : List Char} (start : isWordStart c = true) (word : ∀ d ∈ w, isWordChar d = true) :
    IsLexeme (wordKind (c :: w)) (c :: w) := by
  unfold wordKind
  cases found : TokenKind.keywords.find? (fun k => k.1.toList = c :: w) with
  | none => exact .identifier start word
  | some k =>
    have same : k.1.toList = c :: w := by simpa using List.find?_some found
    exact same ▸ .keyword (List.mem_of_find?_eq_some found)

theorem wordTaken {c : Char} {w rest : List Char} {kind : TokenKind} (start : isWordStart c = true)
    (found : first c (w ++ rest) = (kind, w.length + 1)) :
    kind = wordKind (c :: w) ∧ ∀ d ∈ w, isWordChar d = true := by
  rw [firstOfWord start, Prod.mk.injEq, Nat.succ_inj] at found
  have run := prefixEq (List.takeWhile_prefix isWordChar) (List.prefix_append w rest) found.2
  rw [run] at found
  exact ⟨found.1.symm, fun d member => List.mem_takeWhile_imp (run.symm ▸ member)⟩

theorem wordLongest {c d : Char} {w r : List Char} (start : isWordStart d = true) (word : ∀ d ∈ w, isWordChar d = true)
    (ahead : d :: w <+: c :: r) : (d :: w).length ≤ (first c r).2 := by
  obtain ⟨rfl, behind⟩ := List.cons_prefix_cons.mp ahead
  rw [firstOfWord start]
  exact Nat.succ_le_succ (runWithin word behind)

end Words

section Quotes

variable {w rest r body : List Char} {kind : TokenKind}

theorem quoteShape (found : first '"' (w ++ rest) = (kind, w.length + 1)) :
    IsLexeme kind ('"' :: w) ∨ kind = .invalid ∧ IsOpen ('"' :: (w ++ rest)) w := by
  obtain ⟨u, v, same, inside, ⟨r, rfl⟩ | stops⟩ := bodyCut (w ++ rest)
  · rw [same, firstOfClosed inside.closed, Prod.mk.injEq] at found
    have cut : w ++ rest = (u ++ ['"']) ++ r := by simpa using same
    obtain rfl := List.append_inj_left cut (by simpa using found.2.symm)
    exact .inl (found.1 ▸ .string inside)
  have read := inside.stopped stops
  rw [← same] at read
  rw [firstOfOpen read, Prod.mk.injEq, Nat.succ_inj] at found
  obtain ⟨kind, size⟩ := found
  obtain rfl := List.append_inj_left same size.symm
  by_cases empty : w = []
  · subst empty
    exact .inl (kind ▸ .symbol ⟨by decide, by decide, by decide⟩)
  rw [if_neg (by simpa using empty)] at kind
  refine .inr ⟨kind.symm, List.prefix_append ('"' :: w) rest, inside, empty, fun other within longer => ?_,
    fun other within closed => ?_⟩
  · simpa [read] using within.bound (List.cons_prefix_cons.mp longer).2
  · obtain ⟨r, whole⟩ := (List.cons_prefix_cons.mp closed).2
    rw [← whole, List.append_assoc, List.singleton_append, within.closed] at read
    cases (Prod.mk.inj read).2

theorem openFirst {c : Char} (opened : IsOpen (c :: r) body) : (first c r).1 = .invalid := by
  obtain ⟨rfl, ahead⟩ := List.cons_prefix_cons.mp opened.ahead
  have bound := opened.inside.bound ahead
  obtain ⟨u, v, rfl, inside, ⟨rest, rfl⟩ | stops⟩ := bodyCut r
  · exact absurd ⟨rest, by simp⟩ (opened.unclosed u inside)
  · have positive := List.length_pos_iff.mpr opened.notEmpty
    rw [inside.stopped stops] at bound
    dsimp only at bound
    rw [firstOfOpen (inside.stopped stops), if_neg (by omega)]

end Quotes

theorem IsLexeme.notEmpty {kind : TokenKind} {text : List Char} (h : IsLexeme kind text) : text ≠ [] := by
  cases h with
  | keyword member =>
    obtain ⟨c, w, same, -⟩ := wordOfKeyword member
    simp [same]
  | integer digits => exact digits.notEmpty
  | decimal digits => simp [digits.notEmpty]
  | _ => simp

theorem IsLexeme.valid {kind : TokenKind} {text : List Char} (h : IsLexeme kind text) : kind ≠ .invalid := by
  have all : ∀ k ∈ TokenKind.keywords, k.2 ≠ .invalid := by decide
  cases h with
  | keyword member => exact all _ member
  | _ => simp

theorem digitStart {c : Char} {ds x r : List Char} (digits : IsDigits ds) (ahead : ds ++ x <+: c :: r) :
    isDigit c = true := by
  obtain ⟨d, ds, rfl⟩ := List.exists_cons_of_ne_nil digits.notEmpty
  obtain ⟨rfl, -⟩ := List.cons_prefix_cons.mp ahead
  exact digits.digits d List.mem_cons_self

inductive SymbolShape : Char → List Char → TokenKind → Prop
  | symbol {c : Char} : SymbolShape c [] .symbol
  | dotDot : SymbolShape '.' ['.'] .dotDot
  | string {body : List Char} (inside : IsBody body) : SymbolShape '"' (body ++ ['"']) .string

theorem SymbolShape.alone {c : Char} {w : List Char} {kind : TokenKind} (h : SymbolShape c w kind) (empty : w = []) :
    kind = .symbol := by
  cases h with
  | symbol => rfl
  | dotDot | string => simp at empty

theorem IsSymbol.shape {c : Char} {w : List Char} {kind : TokenKind} (symbol : IsSymbol c)
    (lexeme : IsLexeme kind (c :: w)) : SymbolShape c w kind := by
  obtain ⟨start, digit⟩ : isWordStart c = false ∧ isDigit c = false := by
    have word := symbol.word
    rwa [isWordChar, Bool.or_eq_false_iff] at word
  have mark := symbol.mark
  generalize whole : c :: w = text at lexeme
  cases lexeme with
  | whitespace blank =>
    cases whole
    simp [symbol.space] at blank
  | keyword member =>
    obtain ⟨d, v, same, starts, -⟩ := wordOfKeyword member
    rw [same] at whole
    cases whole
    simp [start] at starts
  | identifier starts =>
    cases whole
    simp [start] at starts
  | integer digits =>
    have starts := digitStart (x := []) digits (by rw [List.append_nil, ← whole])
    simp [digit] at starts
  | decimal digits =>
    have starts := digitStart digits (by rw [← whole])
    simp [digit] at starts
  | string inside =>
    cases whole
    exact .string inside
  | dotDot =>
    cases whole
    exact .dotDot
  | comment | newline | colon | semicolon | equals | minus =>
    cases whole
    simp at mark
  | symbol =>
    cases whole
    exact .symbol

end ConstraintDesk.Line
