import ConstraintDesk.Proofs.Line.Strings

/-! Colons, semicolons and equals signs. A token in front of one does not depend on what stands behind it, so a text
that ends with one is cut up as it is, whatever follows. -/
namespace ConstraintDesk.Line

structure IsSeparator (p : Char) (kind : TokenKind) : Prop extends IsBreak p where
  space : isSpace p = false
  escape : p ≠ '\\'
  mark : markChar? kind = some p
  alone : ∀ r, first p r = (kind, 1)

theorem isSeparatorSemicolon : IsSeparator ';' .semicolon := ⟨isBreakSemicolon, rfl, by decide, rfl, fun _ => rfl⟩

theorem separatorOf {kind : TokenKind} (separates : kind = .colon ∨ kind = .semicolon ∨ kind = .equals) :
    ∃ p, IsSeparator p kind := by
  have isBreakEquals : IsBreak '=' := ⟨by decide, by decide, by decide, by decide⟩
  rcases separates with rfl | rfl | rfl
  · exact ⟨':', isBreakColon, rfl, by decide, rfl, fun _ => rfl⟩
  · exact ⟨';', isSeparatorSemicolon⟩
  · exact ⟨'=', isBreakEquals, rfl, by decide, rfl, fun _ => rfl⟩

def Token.moved (shift : Nat) (t : Token) : Token := { t with start := shift + t.start }

theorem tokensMoved (shift offset : Nat) (cs : List Char) :
    tokensFrom (shift + offset) cs = (tokensFrom offset cs).map (Token.moved shift) := by
  induction cs using byTokens generalizing offset with
  | nil => rw [tokensNil, tokensNil, List.map_nil]
  | token c w rest kind found ih =>
    rw [tokensCons _ found, tokensCons _ found, List.map_cons, ← ih, Nat.add_assoc]
    rfl

section Separated

variable {p : Char} {kind : TokenKind} (separator : IsSeparator p kind)

include separator

theorem stopsBodyUpTo {r b : List Char} (stops : StopsBody (r ++ p :: b)) (other : List Char) :
    StopsBody (r ++ p :: other) := by
  cases r with
  | nil => cases stops <;> exact absurd rfl separator.escape
  | cons c r =>
    cases r with
    | nil =>
      cases stops
      exact .broken other
    | cons d r =>
      cases stops
      exact .broken _

theorem firstUpTo {c : Char} {w r b : List Char} {k : TokenKind}
    (found : first c (w ++ (r ++ p :: b)) = (k, w.length + 1)) (other : List Char) :
    first c (w ++ (r ++ p :: other)) = (k, w.length + 1) := by
  have head : (r ++ p :: other).head? = (r ++ p :: b).head? := by cases r <;> rfl
  by_cases space : isSpace c = true
  · rw [spaceRun space] at found ⊢
    rwa [head]
  rw [Bool.not_eq_true] at space
  by_cases comment : c = '%'
  · subst comment
    rw [commentRun] at found ⊢
    rwa [head]
  by_cases string : c = '"'
  · subst string
    cases quoteToken found with
    | closed ends body =>
      rw [ends, List.append_assoc, List.singleton_append, firstOfClosed body, List.length_append]
      rfl
    | opened stops body => rw [firstOfOpen (body _ (stopsBodyUpTo separator stops other))]
  · have unspaced : isSpace c = true → isSpace p = false := fun _ => separator.space
    rw [← List.append_assoc, firstBefore separator.toIsBreak unspaced comment string] at found ⊢
    exact found

theorem tokensUpTo {front rest : List Token} {x b : List Char} {offset : Nat}
    (cut : tokensFrom offset (x ++ p :: b) = front ++ rest) (text : textOf front = x) (other : List Char) :
    tokensFrom offset (x ++ p :: other) = front ++ tokensFrom (offset + Text.byteLength x) (p :: other) := by
  induction front generalizing offset x with
  | nil =>
    subst text
    rfl
  | cons t front ih =>
    obtain ⟨c, r, whole⟩ : ∃ c r, x ++ p :: b = c :: r := List.exists_cons_of_ne_nil (by simp)
    obtain ⟨w, later, rfl, found⟩ := firstTakes c r
    rw [whole, tokensCons offset found, List.cons_append, List.cons.injEq] at cut
    obtain ⟨rfl, cut⟩ := cut
    obtain rfl : c :: w ++ textOf front = x := text
    obtain rfl : textOf front ++ p :: b = later := by simpa using whole
    have stays := firstUpTo separator found other
    rw [List.append_assoc, List.cons_append, tokensCons offset stays, ih cut rfl, List.cons_append,
      byteLengthAppend, Nat.add_assoc]

theorem separatorAhead {t : Token} {rest : List Token} {offset : Nat} {cs : List Char}
    (cut : tokensFrom offset cs = t :: rest) (same : t.kind = kind) : ∃ tail, cs = p :: tail
      ∧ t = ⟨kind, [p], offset⟩ ∧ rest = tokensFrom (offset + Text.byteLength [p]) tail := by
  cases cs with
  | nil => rw [tokensNil] at cut; cases cut
  | cons c r =>
    obtain ⟨w, tail, rfl, found⟩ := firstTakes c r
    rw [tokensCons _ found, List.cons.injEq] at cut
    obtain ⟨rfl, rfl⟩ := cut
    have same : (first c (w ++ tail)).1 = kind := same
    obtain rfl : c = p := charOfMark (r := w ++ tail) (by rw [same, separator.mark])
    obtain rfl : w = [] := by simpa [separator.alone] using found
    exact ⟨tail, rfl, by rw [same], rfl⟩

end Separated

theorem tokensBehindSeparator {a : List Char} {mark : Token} (last : (tokens a).getLast? = some mark)
    (separates : mark.kind = .colon ∨ mark.kind = .semicolon ∨ mark.kind = .equals) (b : List Char) :
    tokens (a ++ b) = tokens a ++ (tokens b).map (Token.moved (Text.byteLength a)) := by
  obtain ⟨p, separator⟩ := separatorOf separates
  obtain ⟨front, cut⟩ := List.getLast?_eq_some_iff.mp last
  obtain ⟨behind, rfl, left⟩ := tokensSplit cut
  obtain ⟨tail, rfl, same, empty⟩ := separatorAhead separator left.symm rfl
  obtain rfl : tail = [] := by rw [← textOfTokens _ tail, ← empty]; rfl
  have longer := tokensUpTo separator cut rfl b
  have moved := tokensMoved (Text.byteLength (textOf front ++ [p])) 0 b
  rw [tokensOfMark (separator.alone b), ← same, Nat.zero_add, ← byteLengthAppend, ← Nat.add_zero (Text.byteLength _),
    moved] at longer
  rw [List.append_assoc, List.singleton_append, tokens, longer, cut, List.append_assoc]
  rfl

theorem tokensBehindColon : tokens ("\"x\\\n1e+:".toList ++ ['"'])
    = tokens "\"x\\\n1e+:".toList ++ (tokens ['"']).map (Token.moved 8) := by
  have last : (tokens "\"x\\\n1e+:".toList).getLast? = some ⟨.colon, [':'], 7⟩ := by decide +kernel
  exact tokensBehindSeparator last (.inl rfl) ['"']

end ConstraintDesk.Line
