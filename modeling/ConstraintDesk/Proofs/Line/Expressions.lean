import ConstraintDesk.Proofs.Line.Reading
import ConstraintDesk.Proofs.Line.Strings
import ConstraintDesk.Proofs.Text.Words

/-! Which expressions the semicolon behind them ends. A string that is open at the end of an expression
swallows the semicolon, and an expression that starts with one is taken to be missing; every other
expression of one line is read back as it was written. -/
namespace ConstraintDesk.Line

/-- The expressions that the semicolon behind them ends. -/
structure IsClosed (e : List Char) : Prop where
  begins : e.head? ≠ some ';'
  strings : quotesClosed false e = true

structure IsLaidOut (e : List Char) : Prop where
  notEmpty : e ≠ []
  unbroken : '\n' ∉ e
  trimmed : Text.trim e = e
  dark : ∀ c, e.head? = some c → Text.isBlank c = false

structure IsSettled (e : List Char) : Prop where
  trimmed : Text.trim e = e
  unbroken : '\n' ∉ e
  strings : Quoting.outside.after e = .outside

theorem laidOutOfOneLine {cs : List Char} (dark : Text.trim cs ≠ []) : IsLaidOut (Text.oneLine cs) := by
  constructor
  · exact fun empty => dark (Text.oneLineEqNil.mp empty)
  · intro member
    rcases Text.charOfOneLine member with space | inside
    · exact absurd space (by decide)
    · exact absurd inside.1 (by decide)
  · exact Text.trimOneLine _
  · exact fun c head => Text.oneLineHead head

theorem uncommentedOneLine {expression : String} (valid : IsExpression expression) :
    '%' ∉ Text.oneLine expression.toList := by
  intro member
  rcases Text.charOfOneLine member with space | inside
  · exact absurd space (by decide)
  · exact valid.uncommented inside.2

theorem textOfSemicolon {t : Token} {offset : Nat} {cs : List Char} (member : t ∈ tokensFrom offset cs)
    (kind : t.kind = .semicolon) : t.text = [';'] := by
  obtain ⟨front, c, w, rest, -, found, text⟩ := tokenMember member
  obtain rfl : c = ';' := charOfMark (r := w ++ rest) (by rw [found, kind]; rfl)
  have one : first ';' (w ++ rest) = (.semicolon, 1) := rfl
  rw [one] at found
  have length : w.length = 0 := by simpa using congrArg Prod.snd found
  rw [text, List.length_eq_zero_iff.mp length]

theorem spacesOfFirst {c : Char} {w rest : List Char} {kind : TokenKind} (space : isSpace c = true)
    (found : first c (w ++ rest) = (kind, w.length + 1)) : ∀ d ∈ c :: w, isSpace d = true :=
  List.forall_mem_cons.mpr ⟨space, ((spaceRun space).mp found).2.1⟩

theorem textOfTrivia {t : Token} {offset : Nat} {cs : List Char} (member : t ∈ tokensFrom offset cs)
    (trivia : t.kind.isTrivia = true) (uncommented : '%' ∉ cs) : ∀ c ∈ t.text, isSpace c = true := by
  obtain ⟨front, c, w, rest, same, found, text⟩ := tokenMember member
  have space : isSpace c = true := by
    rcases triviaOfFirst (c := c) (r := w ++ rest) (by rw [found]; exact trivia) with space | comment
    · exact space
    · exact absurd (by simp [same, comment]) uncommented
  rw [text]
  exact spacesOfFirst space found

namespace Parser

open Quoting (outside)

theorem splitLastOf {kind : TokenKind} {body rest : List Token} {t : Token} (last : t.kind = kind)
    (absent : ∀ a ∈ rest, a.kind ≠ kind) : splitLast? kind (body ++ t :: rest) = some (body, rest) := by
  have reversed : (body ++ t :: rest).reverse = rest.reverse ++ t :: body.reverse := by simp
  have behind : (rest.reverse ++ t :: body.reverse).takeWhile (·.kind ≠ kind) = rest.reverse := by
    rw [List.takeWhile_append_of_pos fun a member => by simpa using absent a (List.mem_reverse.mp member)]
    simp [last]
  have before : (rest.reverse ++ t :: body.reverse).dropWhile (·.kind ≠ kind) = t :: body.reverse := by
    rw [List.dropWhile_append_of_pos fun a member => by simpa using absent a (List.mem_reverse.mp member)]
    simp [last]
  simp only [splitLast?, reversed, behind, before, List.reverse_reverse]

theorem partsOfSplitLast {kind : TokenKind} {ts body rest : List Token}
    (split : splitLast? kind ts = some (body, rest)) : ∃ t, ts = body ++ t :: rest ∧ t.kind = kind := by
  unfold splitLast? at split
  simp only at split
  split at split
  · cases split
  · next t before found =>
    cases split
    refine ⟨t, ?_, ?_⟩
    · have whole := List.takeWhile_append_dropWhile (p := fun a : Token => decide (a.kind ≠ kind)) (l := ts.reverse)
      rw [found] at whole
      have back := congrArg List.reverse whole
      simpa using back.symm
    · have stopped := List.head?_dropWhile_not (fun a : Token => decide (a.kind ≠ kind)) ts.reverse
      rw [found] at stopped
      simpa using stopped

theorem behindSplitLast {kind : TokenKind} {ts body rest : List Token}
    (split : splitLast? kind ts = some (body, rest)) : ∀ a ∈ rest, a.kind ≠ kind := by
  unfold splitLast? at split
  simp only at split
  split at split
  · cases split
  · cases split
    intro a member
    simpa using List.mem_takeWhile_imp (List.mem_reverse.mp member)

theorem expressionEq (ts : List Token) :
    expression ts = match (significant ts).head? with
      | none => failHere .noExpression ts
      | some t =>
        if t.kind = .semicolon then failHere .noExpression ts
        else match splitLast? .semicolon (significant ts) with
          | none => .error ⟨.missing .semicolon, none⟩
          | some (body, rest) =>
            match body.find? isStray with
            | some t => .error ⟨.unexpected t.kind, some t.start⟩
            | none => .ok (String.ofList (Text.trim (textOf body)), rest) := by
  unfold expression current
  simp only [bind, StateT.bind, Except.bind, get, getThe, MonadStateOf.get, pure]
  cases (significant ts).head? with
  | none => rfl
  | some t =>
    simp only
    split
    · rfl
    · simp only [StateT.bind, StateT.get, bind, Except.bind, pure, Except.pure]
      cases splitLast? .semicolon (significant ts) with
      | none => rfl
      | some parts =>
        obtain ⟨body, rest⟩ := parts
        simp only
        cases body.find? isStray <;> rfl

theorem expressionOk {ts rest : List Token} {e : String} : expression ts = .ok (e, rest)
    ↔ ∃ first body semicolon, significant ts = first :: (body ++ semicolon :: rest) ∧ first.kind ≠ .semicolon
      ∧ (∀ t ∈ first :: body, isStray t = false) ∧ semicolon.kind = .semicolon ∧ (∀ t ∈ rest, t.kind ≠ .semicolon)
      ∧ e = String.ofList (Text.trim (textOf (first :: body))) := by
  rw [expressionEq]
  constructor
  · intro read
    split at read
    · cases read
    next first head =>
    split at read
    · cases read
    next begins =>
    split at read
    · cases read
    next body left found =>
    split at read
    · cases read
    next clean =>
    cases read
    obtain ⟨semicolon, parts, last⟩ := partsOfSplitLast found
    rw [parts] at head ⊢
    cases body with
    | nil =>
      cases head
      exact absurd last begins
    | cons a body =>
      cases head
      exact ⟨first, body, semicolon, rfl, begins, by simpa using clean, last, behindSplitLast found, rfl⟩
  · rintro ⟨first, body, semicolon, parts, begins, clean, last, absent, rfl⟩
    have noStray : (first :: body).find? isStray = .none :=
      List.find?_eq_none.mpr fun t member => by simp [clean t member]
    rw [parts, List.head?_cons, ← List.cons_append, splitLastOf last absent]
    simp only [if_neg begins, noStray]

theorem lastOfTerminated {e : List Char} (terminated : IsTerminated (e ++ [';'])) (offset : Nat) :
    ∃ body t, tokensFrom offset (e ++ [';']) = body ++ [t] ∧ t.kind = .semicolon ∧ textOf body = e := by
  have ends := terminated.ends
  rw [← kindsOfTokens offset] at ends
  have text := textOfTokens offset (e ++ [';'])
  have member {t : Token} (inside : t ∈ tokensFrom offset (e ++ [';'])) (kind : t.kind = .semicolon) :
      t.text = [';'] := textOfSemicolon inside kind
  rcases List.eq_nil_or_concat (tokensFrom offset (e ++ [';'])) with empty | ⟨body, t, split⟩
  · rw [empty] at ends
    cases ends
  · rw [List.concat_eq_append] at split
    rw [split] at ends text member
    have kind : t.kind = .semicolon := by simpa using ends
    have mark := member (by simp) kind
    refine ⟨body, t, split, kind, ?_⟩
    rw [textOf, List.flatMap_append, List.flatMap_singleton, mark] at text
    exact List.append_cancel_right text

variable {e gap : List Char} (laid : IsLaidOut e) (lead : Gap gap)

include laid

theorem strayOfLaidOut {offset : Nat} {t : Token} (member : t ∈ tokensFrom offset (e ++ [';'])) :
    isStray t = decide (t.kind = .invalid) := by
  have newline : t.kind ≠ .newline := by
    intro kind
    obtain ⟨front, c, w, rest, same, found, -⟩ := tokenMember member
    obtain rfl : c = '\n' := charOfMark (r := w ++ rest) (by rw [found, kind]; rfl)
    have inside : '\n' ∈ e ++ [';'] := by simp [same]
    simp [laid.unbroken] at inside
  simp [isStray, newline]

theorem darkLaidOut (comment : e.head? ≠ some '%') : StartsDark (e ++ [';']) := by
  intro c head
  obtain ⟨d, r, rfl⟩ := List.exists_cons_of_ne_nil laid.notEmpty
  cases head
  refine ⟨spaceOfDark (laid.dark c rfl), ?_⟩
  rintro rfl
  exact comment rfl

theorem headOfLaidOut (offset : Nat) :
    ∃ t, (tokensFrom offset (e ++ [';'])).head? = some t ∧ (t.kind = .semicolon ↔ e.head? = some ';') := by
  obtain ⟨c, r, rfl⟩ := List.exists_cons_of_ne_nil laid.notEmpty
  obtain ⟨w, rest, same, found⟩ := firstTakes c (r ++ [';'])
  rw [same] at found
  rw [List.cons_append, same, tokensCons offset found]
  refine ⟨_, rfl, fun kind => ?_, fun semicolon => ?_⟩
  · obtain rfl : c = ';' := charOfMark (r := w ++ rest) (congrArg markChar? kind)
    rfl
  · cases semicolon
    rfl

omit laid in
theorem lastNotTrivia (uncommented : '%' ∉ e) {offset : Nat} {body : List Token} {t : Token}
    (parts : tokensFrom offset (e ++ [';']) = body ++ [t]) : t.kind.isTrivia = false := by
  have member : t ∈ tokensFrom offset (e ++ [';']) := by simp [parts]
  have uncommented : '%' ∉ e ++ [';'] := by simp [uncommented]
  have text := textOfTokens offset (e ++ [';'])
  obtain ⟨front, c, w, rest, -, -, own⟩ := tokenMember member
  by_contra trivia
  have blank := textOfTrivia member (by simpa using trivia) uncommented
  have last := congrArg List.getLast? text
  rw [parts, textOf, List.flatMap_append, List.flatMap_singleton, List.getLast?_append, own,
    List.getLast?_append] at last
  rw [own] at blank
  have ends : (c :: w).getLast? = some ';' := by simpa [List.getLast?_cons] using last
  exact absurd (blank ';' (List.mem_of_getLast? ends)) (by decide)

theorem readsExpression (begins : e.head? ≠ some ';') (strings : outside.after e = outside) (lead : Gap gap) :
    Reads expression (gap ++ (e ++ [';'])) (String.ofList e) [] := by
  intro offset
  have comment : e.head? ≠ some '%' := by
    intro head
    obtain ⟨r, rfl⟩ := List.head?_eq_some_iff.mp head
    simp [Quoting.step, Quoting.afterComment] at strings
  obtain ⟨start, ahead⟩ := significantGap lead (darkLaidOut laid comment) offset
  obtain ⟨first, head, kind⟩ := headOfLaidOut laid start
  have terminated := (terminatedIff laid.unbroken).mpr strings
  obtain ⟨body, t, parts, last, text⟩ := lastOfTerminated terminated start
  have noStray : body.find? isStray = none := by
    rw [List.find?_eq_none]
    intro a member
    have inside : a ∈ tokensFrom start (e ++ [';']) := by simp [parts, member]
    rw [strayOfLaidOut laid inside, decide_eq_true_eq]
    intro invalid
    have kinds := terminated.valid
    rw [← kindsOfTokens start] at kinds
    exact kinds (List.mem_map.mpr ⟨a, inside, invalid⟩)
  refine ⟨0, ?_⟩
  rw [expressionEq, ahead, head]
  simp only
  rw [if_neg (fun semicolon => begins (kind.mp semicolon)), parts, splitLastOf last (by simp)]
  simp only [noStray, text, laid.trimmed, tokensNil]

omit laid in
theorem expressionMissing (lead : Gap gap) (offset : Nat) (rest : List Char) :
    expression (tokensFrom offset (gap ++ ';' :: rest)) = failHere .noExpression (tokensFrom offset (gap ++ ';' :: rest)) := by
  have dark : StartsDark (';' :: rest) := darkOfPlain (by decide) (by decide) rest
  obtain ⟨start, ahead⟩ := significantGap lead dark offset
  rw [expressionEq, ahead, tokensOfMark (rfl : first ';' rest = (.semicolon, 1))]
  rfl

theorem closedOfExpression (uncommented : '%' ∉ e) {offset : Nat} {s : String} {rest : List Token} (lead : Gap gap)
    (read : expression (tokensFrom offset (gap ++ (e ++ [';']))) = .ok (s, rest))
    (done : significant rest = []) : IsClosed e := by
  have comment : e.head? ≠ some '%' := fun head => uncommented (List.mem_of_head? head)
  obtain ⟨start, ahead⟩ := significantGap lead (darkLaidOut laid comment) offset
  obtain ⟨first, body, semicolon, parts, begins, clean, last, -, -⟩ := expressionOk.mp read
  rw [ahead, ← List.cons_append] at parts
  obtain ⟨t, head, kind⟩ := headOfLaidOut laid start
  obtain rfl : first = t := by simpa [parts] using head
  have nothing : rest = [] := by
    rcases List.eq_nil_or_concat rest with empty | ⟨front, a, split⟩
    · exact empty
    · rw [split, List.concat_eq_append, ← List.cons_append, ← List.append_assoc] at parts
      have solid := lastNotTrivia uncommented parts
      rw [significant, List.dropWhile_eq_nil_iff] at done
      have trivia := done a (by simp [split])
      rw [solid] at trivia
      cases trivia
  rw [nothing] at parts
  have kinds := kindsOfTokens start (e ++ [';'])
  refine ⟨fun mark => begins (kind.mpr mark), ?_⟩
  refine (closedIff uncommented false).mpr ((terminatedIff laid.unbroken).mp ⟨?_, ?_⟩)
  · rw [← kinds]
    intro invalid
    obtain ⟨a, inside, same⟩ := List.mem_map.mp invalid
    rw [parts] at inside
    rcases List.mem_append.mp inside with front | final
    · have stray := clean a front
      simp [isStray, same] at stray
    · rw [List.mem_singleton.mp final, last] at same
      cases same
  · rw [← kinds, parts, List.map_append, List.map_singleton, last, List.getLast?_concat]

end Parser
end ConstraintDesk.Line
