import ConstraintDesk.Proofs.Line.Shapes
import ConstraintDesk.Proofs.Text.Columns

/-! What the tokens of a text are, without the lexer: a rule picks the first token among all the shapes that the text
starts with. The lexer follows the rule, so a token depends on nothing but its own characters and what could have made
it longer. -/
namespace ConstraintDesk.Line

/-- The first token of a text: the longest shape that the text starts with, and a keyword before an identifier; but an
open quote makes one invalid token with all that could have been in the string. -/
inductive IsFirst (cs : List Char) : TokenKind → List Char → Prop
  | longest {kind : TokenKind} {text : List Char} (lexeme : IsLexeme kind text) (ahead : text <+: cs)
      (longest : ∀ k other, IsLexeme k other → other <+: cs → other.length ≤ text.length)
      (keyword : ∀ k, IsLexeme k text → k = kind ∨ k = .identifier) (closed : ∀ body, ¬ IsOpen cs body) :
      IsFirst cs kind text
  | opened {body : List Char} (opened : IsOpen cs body) : IsFirst cs .invalid ('"' :: body)

inductive Lexed : Nat → List Char → List Token → Prop
  | nil {offset : Nat} : Lexed offset [] []
  | cons {offset : Nat} {kind : TokenKind} {text rest : List Char} {ts : List Token}
      (first : IsFirst (text ++ rest) kind text) (behind : Lexed (offset + Text.byteLength text) rest ts) :
      Lexed offset (text ++ rest) (⟨kind, text, offset⟩ :: ts)

theorem IsFirst.unique {cs text other : List Char} {kind k : TokenKind} (one : IsFirst cs kind text)
    (two : IsFirst cs k other) : k = kind ∧ other = text := by
  cases one with
  | longest lexeme ahead longest keyword closed =>
    cases two with
    | longest lexeme' ahead' longest' keyword' closed' =>
      have size := Nat.le_antisymm (longest k other lexeme' ahead') (longest' kind text lexeme ahead)
      obtain rfl := prefixEq ahead' ahead size
      refine ⟨?_, rfl⟩
      rcases keyword k lexeme' with same | identifier
      · exact same
      · rcases keyword' kind lexeme with same | other
        · exact same.symm
        · rw [identifier, other]
    | opened opened => exact absurd opened (closed _)
  | opened opened =>
    cases two with
    | longest _ _ _ _ closed => exact absurd opened (closed _)
    | opened other => exact ⟨rfl, by rw [opened.unique other]⟩

section First

variable {c : Char} {w rest : List Char} {kind : TokenKind}

theorem firstLongest {k : TokenKind} {other r : List Char} (lexeme : IsLexeme k other) (ahead : other <+: c :: r) :
    other.length ≤ (first c r).2 := by
  cases lexeme with
  | whitespace blank =>
    obtain ⟨rfl, behind⟩ := List.cons_prefix_cons.mp ahead
    rw [first, if_pos (blank _ List.mem_cons_self)]
    exact Nat.succ_le_succ (runWithin (fun d member => blank d (List.mem_cons_of_mem _ member)) behind)
  | comment line =>
    obtain ⟨rfl, behind⟩ := List.cons_prefix_cons.mp ahead
    exact Nat.succ_le_succ (runWithin (q := (· ≠ '\n')) (by simpa using line) behind)
  | keyword member =>
    obtain ⟨d, w, same, start, word, -⟩ := wordOfKeyword member
    rw [same] at ahead ⊢
    exact wordLongest start word ahead
  | identifier start word => exact wordLongest start word ahead
  | integer digits =>
    have ahead : other ++ ([] ++ []) <+: c :: r := by simpa using ahead
    rw [firstOfDigit (digitStart digits ahead)]
    simpa using numberLongest digits .none .none ahead
  | decimal digits fraction exponent =>
    rw [firstOfDigit (digitStart digits ahead)]
    exact numberLongest digits fraction exponent ahead
  | string inside =>
    obtain ⟨rfl, rest, rfl⟩ := List.cons_prefix_cons.mp ahead
    rw [List.append_assoc, List.singleton_append, firstOfClosed inside.closed]
    simp
  | dotDot =>
    obtain ⟨rfl, rest, rfl⟩ := List.cons_prefix_cons.mp ahead
    exact Nat.le_refl 2
  | newline | colon | semicolon | equals | minus | symbol => exact (firstBound c r).1

theorem firstShape (found : first c (w ++ rest) = (kind, w.length + 1)) :
    IsLexeme kind (c :: w) ∨ kind = .invalid ∧ IsOpen (c :: (w ++ rest)) w := by
  by_cases space : isSpace c = true
  · obtain ⟨rfl, blank, -⟩ := (spaceRun space).mp found
    exact .inl (.whitespace (List.forall_mem_cons.mpr ⟨space, blank⟩))
  by_cases comment : c = '%'
  · subst comment
    obtain ⟨rfl, line, -⟩ := commentRun.mp found
    exact .inl (.comment line)
  by_cases start : isWordStart c = true
  · obtain ⟨rfl, word⟩ := wordTaken start found
    exact .inl (wordShape start word)
  by_cases digit : isDigit c = true
  · have shape := @numberShape (c :: (w ++ rest)) (by simp [digit])
    rw [← firstOfDigit digit, found, List.take_succ_cons, List.take_left] at shape
    exact .inl shape
  by_cases string : c = '"'
  · subst string
    exact quoteShape found
  -- What is left is told by the character alone, but for the two dots.
  have lone {k : TokenKind} {d : Char} (shape : IsLexeme k [d]) (found : (k, 1) = (kind, w.length + 1)) :
      IsLexeme kind (d :: w) := by
    obtain ⟨rfl, size⟩ := Prod.mk.inj found
    obtain rfl : w = [] := List.length_eq_zero_iff.mp (by omega)
    exact shape
  refine .inl ?_
  by_cases newline : c = '\n'
  · subst newline
    exact lone .newline found
  by_cases colon : c = ':'
  · subst colon
    exact lone .colon found
  by_cases semicolon : c = ';'
  · subst semicolon
    exact lone .semicolon found
  by_cases equals : c = '='
  · subst equals
    exact lone .equals found
  by_cases minus : c = '-'
  · subst minus
    exact lone .minus found
  unfold first at found
  rw [if_neg space, if_neg comment, if_neg newline, if_neg start, if_neg digit, if_neg string, if_neg colon,
    if_neg semicolon, if_neg equals, if_neg minus] at found
  split at found
  · next dots =>
    simp only [Bool.and_eq_true, decide_eq_true_eq] at dots
    obtain ⟨rfl, size⟩ := Prod.mk.inj found
    obtain ⟨d, rfl⟩ := List.length_eq_one_iff.mp (Nat.succ_inj.mp size.symm)
    obtain ⟨rfl, second⟩ := dots
    cases second
    exact .dotDot
  · refine lone (.symbol ⟨by simpa using space, by simp [isWordChar, start, digit], ?_⟩) found
    simp [newline, comment, colon, semicolon, equals, minus]

theorem firstKind {k : TokenKind} (lexeme : IsLexeme k (c :: w)) (found : first c (w ++ rest) = (kind, w.length + 1)) :
    k = kind ∨ k = .identifier := by
  generalize whole : c :: w = text at lexeme
  cases lexeme with
  | whitespace blank =>
    cases whole
    exact .inl ((spaceRun (blank _ List.mem_cons_self)).mp found).1.symm
  | comment line =>
    cases whole
    exact .inl (commentRun.mp found).1.symm
  | keyword member =>
    obtain ⟨d, v, same, start, -, kind⟩ := wordOfKeyword member
    rw [same] at whole
    cases whole
    exact .inl (kind.symm.trans (wordTaken start found).1.symm)
  | identifier => exact .inr rfl
  | integer digits =>
    subst whole
    have digit := digitStart (x := []) digits (by rw [List.append_nil])
    rw [firstOfDigit digit, ← List.cons_append] at found
    exact .inl ((integerKind digits (congrArg Prod.snd found)).symm.trans (congrArg Prod.fst found))
  | decimal digits fraction exponent marked =>
    have digit := digitStart digits (by rw [← whole])
    rw [firstOfDigit digit, ← List.cons_append, whole] at found
    exact .inl ((decimalKind digits fraction exponent marked rest).symm.trans (congrArg Prod.fst found))
  | @string body inside =>
    cases whole
    rw [List.append_assoc, List.singleton_append, firstOfClosed inside.closed] at found
    exact .inl (congrArg Prod.fst found)
  | dotDot =>
    cases whole
    exact .inl (congrArg Prod.fst found)
  | newline | colon | semicolon | equals | minus =>
    cases whole
    exact .inl (congrArg Prod.fst found)
  | symbol symbol =>
    cases whole
    rcases firstShape found with shape | ⟨-, opened⟩
    · exact .inl ((symbol.shape shape).alone rfl).symm
    · exact absurd rfl opened.notEmpty

theorem firstIff : first c (w ++ rest) = (kind, w.length + 1) ↔ IsFirst (c :: (w ++ rest)) kind (c :: w) := by
  have ruled {w rest : List Char} {kind : TokenKind} (found : first c (w ++ rest) = (kind, w.length + 1)) :
      IsFirst (c :: (w ++ rest)) kind (c :: w) := by
    rcases firstShape found with shape | ⟨rfl, opened⟩
    · refine .longest shape (List.prefix_append (c :: w) rest) (fun k other lexeme ahead => ?_)
        (fun k lexeme => firstKind lexeme found) fun body opened => ?_
      · simpa [found] using firstLongest lexeme ahead
      · have invalid := openFirst opened
        rw [found] at invalid
        exact shape.valid invalid
    · obtain ⟨rfl, -⟩ := List.cons_prefix_cons.mp opened.ahead
      exact .opened opened
  refine ⟨ruled, fun rule => ?_⟩
  obtain ⟨v, behind, same, found⟩ := firstTakes c (w ++ rest)
  have other := ruled (same ▸ found)
  rw [← same] at other
  obtain ⟨kind, text⟩ := rule.unique other
  rw [found, kind, (List.cons.inj text).2]

end First

theorem IsFirst.notEmpty {cs text : List Char} {kind : TokenKind} (h : IsFirst cs kind text) : text ≠ [] := by
  cases h with
  | longest lexeme => exact lexeme.notEmpty
  | opened => simp

theorem IsLexeme.closed {kind : TokenKind} {text : List Char} (h : IsLexeme kind text) (body : List Char) :
    ¬ IsOpen text body := by
  intro opened
  have symbol : IsSymbol '"' := ⟨by decide, by decide, by decide⟩
  obtain ⟨c, w, rfl⟩ := List.exists_cons_of_ne_nil h.notEmpty
  obtain ⟨rfl, rest, same⟩ := List.cons_prefix_cons.mp opened.ahead
  cases symbol.shape h with
  | symbol => exact opened.notEmpty (List.append_eq_nil_iff.mp same).1
  | string inside => exact opened.unclosed _ inside List.prefix_rfl

theorem IsFirst.alone {cs text : List Char} {kind : TokenKind} (h : IsFirst cs kind text) : IsFirst text kind text := by
  cases h with
  | longest lexeme ahead longest keyword closed =>
    exact .longest lexeme List.prefix_rfl (fun k other _ ahead => ahead.length_le) keyword lexeme.closed
  | @opened body opened =>
    refine .opened ⟨List.prefix_rfl, opened.inside, opened.notEmpty, fun other _ ahead => ?_, fun other inside => ?_⟩
    · simpa using ahead.length_le
    · exact fun ahead => opened.unclosed other inside (ahead.trans opened.ahead)

theorem lexedOf (offset : Nat) (cs : List Char) : Lexed offset cs (tokensFrom offset cs) := by
  induction cs using byTokens generalizing offset with
  | nil => rw [tokensNil]; exact .nil
  | token c w rest kind found ih =>
    rw [tokensCons offset found]
    have rule : IsFirst (c :: w ++ rest) kind (c :: w) := firstIff.mp found
    exact .cons rule (ih _)

theorem Lexed.tokens {offset : Nat} {cs : List Char} {ts : List Token} (h : Lexed offset cs ts) :
    tokensFrom offset cs = ts := by
  induction h with
  | nil => exact tokensNil _
  | cons first behind ih =>
    obtain ⟨c, w, rfl⟩ := List.exists_cons_of_ne_nil first.notEmpty
    rw [List.cons_append, tokensCons _ (firstIff.mpr first), ih]

theorem tokensAlone {t : Token} {offset : Nat} {cs : List Char} (member : t ∈ tokensFrom offset cs) :
    tokens t.text = [⟨t.kind, t.text, 0⟩] := by
  obtain ⟨front, c, w, rest, rfl, found, text⟩ := tokenMember member
  have alone : IsFirst (c :: (w ++ [])) t.kind (c :: w) := by
    rw [List.append_nil]
    exact (firstIff.mp found).alone
  have cut := tokensCons 0 (firstIff.mpr alone)
  rwa [List.append_nil, tokensNil, ← text] at cut

theorem tokensExact (cs : List Char) : (∀ ts, tokens cs = ts ↔ Lexed 0 cs ts) ∧ textOf (tokens cs) = cs
    ∧ ∀ front t back, tokens cs = front ++ t :: back → t.text ≠ [] ∧ t.start = Text.byteLength (textOf front)
      ∧ Text.IsBoundary cs t.start ∧ tokens t.text = [⟨t.kind, t.text, 0⟩] := by
  have whole := textOfTokens 0 cs
  refine ⟨fun ts => ⟨fun same => same ▸ lexedOf 0 cs, Lexed.tokens⟩, whole, fun front t back split => ?_⟩
  have member : t ∈ tokens cs := by simp [split]
  obtain ⟨-, c, w, -, -, -, text⟩ := tokenMember member
  obtain ⟨behind, parts, left⟩ := tokensSplit split
  have start : t.start = Text.byteLength (textOf front) := (startOfCons left.symm).trans (Nat.zero_add _)
  exact ⟨by simp [text], start, ⟨textOf front, ⟨behind, parts.symm⟩, start.symm⟩, tokensAlone member⟩

example : (tokens "int_ 1e+\"a\\".toList).map (·.kind)
    = [.identifier, .whitespace, .integer, .identifier, .symbol, .invalid, .symbol] := by decide +kernel

end ConstraintDesk.Line
