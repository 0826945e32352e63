import ConstraintDesk.Proofs.Line.Layout
import ConstraintDesk.Proofs.Line.Reading
import ConstraintDesk.Proofs.Line.Strings

/-! Ids as they are read. An id is a run of tokens without gaps. What can stand behind it, a gap or the
sign that ends it, does not decide how the run is cut up, so a text that was read as an id is read as
one wherever it is written. -/
namespace ConstraintDesk.Line

def Breaks (tail : List Char) : Prop := ∀ p, tail.head? = some p → IsBreak p

theorem breaksNil : Breaks [] := fun _ head => by cases head

theorem IsBreak.breaks {p : Char} (stop : IsBreak p) (r : List Char) : Breaks (p :: r) :=
  fun _ head => by cases head; exact stop

theorem firstAhead {c : Char} {tail : List Char} (ends : Breaks tail) (space : isSpace c = false)
    (comment : c ≠ '%') (string : c ≠ '"') (v : List Char) : first c (v ++ tail) = first c v := by
  cases tail with
  | nil => rw [List.append_nil]
  | cons p b => exact firstBefore (ends p rfl) (by simp [space]) comment string v b

variable {c p : Char} {w u behind tail : List Char} {kind : TokenKind}

theorem firstStays (stop : IsBreak p) (escape : p ≠ '\\') (unbroken : IsUnbroken (w ++ (u ++ p :: behind)))
    (found : first c (w ++ (u ++ p :: behind)) = (kind, w.length + 1)) (solid : kind.isTrivia = false)
    (valid : kind ≠ .invalid) (ends : Breaks tail) : first c (w ++ (u ++ tail)) = (kind, w.length + 1) := by
  obtain ⟨space, comment⟩ := darkOfSolid (c := c) (r := w ++ (u ++ p :: behind)) (by rw [found]; exact solid)
  by_cases string : c = '"'
  · subst string
    obtain ⟨-, -, token, -⟩ := stringTaken unbroken found valid (by simp) escape
    exact token (u ++ tail)
  · rw [← List.append_assoc, firstAhead ends space comment string]
    rwa [← List.append_assoc, firstAhead (stop.breaks behind) space comment string] at found

theorem runAlike (stop : IsBreak p) (escape : p ≠ '\\') {body rest : List Token} {offset : Nat}
    (unbroken : IsUnbroken (u ++ p :: behind)) (cut : tokensFrom offset (u ++ p :: behind) = body ++ rest)
    (text : textOf body = u) (parts : ∀ t ∈ body, t.kind.isTrivia = false ∧ t.kind ≠ .invalid) :
    tokensFrom offset u = body ∧ ∀ {tail : List Char}, Breaks tail → ∀ start,
      tokensFrom start (u ++ tail) = tokensFrom start u ++ tokensFrom (start + Text.byteLength u) tail := by
  induction body generalizing offset u with
  | nil =>
    have empty : [] = u := text
    subst empty
    exact ⟨tokensNil offset, fun _ start => by rw [tokensNil]; rfl⟩
  | cons t body ih =>
    obtain ⟨c, r, whole⟩ : ∃ c r, u ++ p :: behind = c :: r := List.exists_cons_of_ne_nil (by simp)
    obtain ⟨w, later, rfl, found⟩ := firstTakes c r
    rw [whole, tokensCons offset found, List.cons_append, List.cons.injEq] at cut
    obtain ⟨rfl, cut⟩ := cut
    have text : c :: w ++ textOf body = u := text
    subst text
    rw [List.append_assoc] at whole unbroken
    obtain rfl := List.append_cancel_left (whole : c :: w ++ (textOf body ++ p :: behind) = c :: w ++ later)
    have line : IsUnbroken ([c] ++ (w ++ (textOf body ++ p :: behind))) := unbroken
    have later := line.right
    obtain ⟨alone, others⟩ := ih later.right cut rfl fun t member => parts t (by simp [member])
    obtain ⟨solid, valid⟩ := parts _ List.mem_cons_self
    have stays {tail : List Char} (ends : Breaks tail) := firstStays stop escape later found solid valid ends
    have one (start : Nat) : tokensFrom start (c :: (w ++ textOf body)) = _ :=
      tokensCons start (by simpa using stays breaksNil)
    have size : Text.byteLength (c :: (w ++ textOf body)) = Text.byteLength (c :: w) + Text.byteLength (textOf body) :=
      byteLengthAppend (c :: w) (textOf body)
    refine ⟨?_, fun {tail} ends start => ?_⟩
    · rw [List.cons_append, one, alone]
    · rw [List.append_assoc, List.cons_append, tokensCons start (stays ends), others ends, List.cons_append, one,
        List.cons_append, size, Nat.add_assoc]

namespace Parser

def idBody (terminator : TokenKind) (ts : List Token) : List Token :=
  (ts.filter (!·.kind.isTrivia)).takeWhile (·.kind ≠ terminator)

theorem idBodyTrivia {terminator : TokenKind} {a : Token} (trivia : a.kind.isTrivia = true) (r : List Token) :
    idBody terminator (a :: r) = idBody terminator r := by
  unfold idBody
  rw [List.filter_cons_of_neg (by simp [trivia])]

theorem idBodySolid {terminator : TokenKind} {a : Token} (solid : a.kind.isTrivia = false) (r : List Token) :
    idBody terminator (a :: r) = if a.kind = terminator then [] else a :: idBody terminator r := by
  unfold idBody
  rw [List.filter_cons_of_pos (by simp [solid]), List.takeWhile_cons]
  split <;> split <;> simp_all

theorem filterSignificant (ts : List Token) :
    (significant ts).filter (!·.kind.isTrivia) = ts.filter (!·.kind.isTrivia) := by
  induction ts with
  | nil => rfl
  | cons t r ih =>
    unfold significant at ih ⊢
    rw [List.dropWhile_cons]
    split
    · next trivia => rw [ih, List.filter_cons_of_neg (by simp [trivia])]
    · rfl

theorem idBodySignificant (terminator : TokenKind) (ts : List Token) :
    idBody terminator (significant ts) = idBody terminator ts := by
  rw [idBody, filterSignificant, idBody]

theorem significantHead {ts : List Token} {t : Token} (head : (significant ts).head? = some t) :
    t.kind.isTrivia = false := by
  have stopped := List.head?_dropWhile_not (fun a : Token => a.kind.isTrivia) ts
  rw [significant] at head
  rw [head] at stopped
  simpa using stopped

theorem faultless {a : Token} {body : List Token} (whole : idFailure? (a :: body) = none) :
    (∀ b ∈ body, isStray b = false) ∧ ∀ b, body.head? = some b → a.finish = b.start := by
  induction body generalizing a with
  | nil => simp
  | cons b body ih =>
    rw [idFailure?, Option.or_eq_none_iff, Option.map_eq_none_iff] at whole
    obtain ⟨first, later⟩ := whole
    unfold idFault? at first
    split at first
    · cases first
    next clean =>
      split at first
      · cases first
      next touch =>
        refine ⟨fun t member => ?_, fun t head => ?_⟩
        · rcases List.mem_cons.mp member with rfl | inside
          · simpa using clean
          · exact (ih later).1 t inside
        · cases head
          simpa using touch

theorem behindChain {b : Token} {r : List Token} (chain : (b :: r).IsChain (fun a b => a.finish = b.start))
    (long : ∀ t ∈ r, t.start < t.finish) : ∀ t ∈ r, b.finish ≤ t.start := by
  induction r generalizing b with
  | nil => simp
  | cons a r ih =>
    obtain ⟨touch, chain⟩ := List.isChain_cons_cons.mp chain
    have later := ih chain fun t member => long t (by simp [member])
    have first := long a (by simp)
    intro t member
    rcases List.mem_cons.mp member with rfl | inside
    · exact touch.le
    · have := later t inside
      omega

theorem nothingBehindGap {terminator : TokenKind} {a b : Token} {r : List Token}
    (chain : (a :: b :: r).IsChain (fun a b => a.finish = b.start)) (long : ∀ t ∈ b :: r, t.start < t.finish)
    (touches : ∀ t, (idBody terminator r).head? = some t → a.finish = t.start) : idBody terminator r = [] := by
  obtain ⟨touch, tail⟩ := List.isChain_cons_cons.mp chain
  by_contra nonempty
  obtain ⟨d, body, found⟩ := List.exists_cons_of_ne_nil nonempty
  have member : d ∈ idBody terminator r := by simp [found]
  have inside := (List.mem_filter.mp ((List.takeWhile_sublist _).mem member)).1
  have near := touches d (by rw [found]; rfl)
  have far := behindChain tail (fun t member => long t (by simp [member])) d inside
  have wide := long b (by simp)
  omega

theorem faultlessTail {a : Token} {body : List Token} (whole : idFailure? (a :: body) = none) :
    idFailure? body = none := by
  cases body with
  | nil => rfl
  | cons b body =>
    rw [idFailure?, Option.or_eq_none_iff] at whole
    exact whole.2

theorem runAhead {terminator : TokenKind} {ts : List Token} (chain : ts.IsChain (fun a b => a.finish = b.start))
    (long : ∀ t ∈ ts, t.start < t.finish) (dark : ∀ t, ts.head? = some t → t.kind.isTrivia = false)
    (whole : idFailure? (idBody terminator ts) = none) :
    ∃ behind, ts = idBody terminator ts ++ behind
      ∧ ∀ t, behind.head? = some t → t.kind.isTrivia = true ∨ t.kind = terminator := by
  induction ts with
  | nil => exact ⟨[], rfl, by simp⟩
  | cons a r ih =>
    have solid := dark a rfl
    by_cases last : a.kind = terminator
    · rw [idBodySolid solid, if_pos last]
      exact ⟨a :: r, rfl, fun t head => by cases head; exact .inr last⟩
    · rw [idBodySolid solid, if_neg last] at whole ⊢
      obtain ⟨-, touches⟩ := faultless whole
      cases r with
      | nil => exact ⟨[], rfl, by simp⟩
      | cons b r =>
        cases gap : b.kind.isTrivia with
        | false =>
          obtain ⟨behind, same, ends⟩ := ih (List.isChain_cons_cons.mp chain).2 (fun t member => long t (by simp [member]))
            (fun t head => by cases head; exact gap) (faultlessTail whole)
          exact ⟨behind, congrArg (a :: ·) same, ends⟩
        | true =>
          rw [idBodyTrivia gap] at touches ⊢
          have empty := nothingBehindGap chain (fun t member => long t (List.mem_cons_of_mem _ member)) touches
          rw [empty]
          exact ⟨b :: r, rfl, fun t head => by cases head; exact .inl gap⟩

theorem idParts {terminator : TokenKind} {ts later : List Token} {first : Token}
    (found : idBody terminator ts = first :: later) (clean : isStray first = false)
    (whole : idFailure? (idBody terminator ts) = none) : ∀ t ∈ idBody terminator ts, IsIdPart terminator t.kind := by
  intro t member
  have solid := (List.mem_filter.mp ((List.takeWhile_sublist _).mem member)).2
  have other := List.mem_takeWhile_imp member
  have stray : isStray t = false := by
    rw [found] at member whole
    rcases List.mem_cons.mp member with rfl | inside
    · exact clean
    · exact (faultless whole).1 t inside
  simp only [isStray, Bool.or_eq_false_iff, decide_eq_false_iff_not] at stray
  exact ⟨by simpa using solid, stray.1, stray.2, by simpa using other⟩

theorem identifierOk {terminator : TokenKind} {ts rest : List Token} {id : String}
    (read : identifier terminator ts = .ok (id, rest)) :
    (idBody terminator ts).length ≠ (ts.filter (!·.kind.isTrivia)).length
      ∧ (∃ first later, idBody terminator ts = first :: later ∧ isStray first = false)
      ∧ idFailure? (idBody terminator ts) = none ∧ id = String.ofList (textOf (idBody terminator ts))
      ∧ rest = ts.dropWhile (·.kind ≠ terminator) := by
  have body : (ts.filter (!·.kind.isTrivia)).takeWhile (·.kind ≠ terminator) = idBody terminator ts := rfl
  rw [identifierEq] at read
  simp only [body] at read
  split at read
  · cases read
  next ended =>
    refine ⟨ended, ?_⟩
    cases found : idBody terminator ts with
    | nil =>
      rw [found] at read
      cases read
    | cons first later =>
      rw [found] at read
      simp only at read
      split at read
      · cases read
      next clean =>
        cases whole : idFailure? (first :: later) with
        | some f =>
          rw [whole] at read
          cases read
        | none =>
          rw [whole] at read
          cases read
          exact ⟨⟨first, later, rfl, by simpa using clean⟩, rfl, rfl, rfl⟩

end Parser

theorem significantSplit (offset : Nat) (cs : List Char) : ∃ front start behind, cs = front ++ behind
    ∧ significant (tokensFrom offset cs) = tokensFrom start behind := by
  have parts := List.takeWhile_append_dropWhile (p := fun t : Token => t.kind.isTrivia) (l := tokensFrom offset cs)
  obtain ⟨behind, text, rest⟩ := tokensSplit parts.symm
  exact ⟨_, _, behind, text, rest⟩

theorem breakBehind {terminator : TokenKind}
    (mark : terminator = .colon ∨ terminator = .semicolon ∨ terminator = .equals) {r : List Char}
    (ends : (first p r).1.isTrivia = true ∨ (first p r).1 = terminator) : IsBreak p ∧ p ≠ '\\' := by
  have sign {d : Char} (found : markChar? terminator = some d) (last : (first p r).1 = terminator) : p = d :=
    charOfMark (by rw [last, found])
  rcases ends with trivia | last
  · rcases triviaOfFirst trivia with space | rfl
    · simp only [isSpace, Bool.or_eq_true, decide_eq_true_eq] at space
      rcases space with (rfl | rfl) | rfl <;> exact ⟨⟨by decide, by decide, by decide, by decide⟩, by decide⟩
    · exact ⟨isBreakPercent, by decide⟩
  · rcases mark with rfl | rfl | rfl
    · cases sign rfl last
      exact ⟨isBreakColon, by decide⟩
    · cases sign rfl last
      exact ⟨isBreakSemicolon, by decide⟩
    · cases sign rfl last
      exact ⟨⟨by decide, by decide, by decide, by decide⟩, by decide⟩

theorem kindAmong (start : Nat) {t : Token} {offset : Nat} {cs : List Char} (member : t ∈ tokensFrom offset cs) :
    ∃ a ∈ tokensFrom start cs, a.kind = t.kind := by
  have kind : t.kind ∈ (tokensFrom offset cs).map (·.kind) := List.mem_map.mpr ⟨t, member, rfl⟩
  rw [kindsOfTokens, ← kindsOfTokens start] at kind
  exact List.mem_map.mp kind

theorem identifierOnLine {terminator : TokenKind}
    (mark : terminator = .colon ∨ terminator = .semicolon ∨ terminator = .equals) {offset : Nat} {cs : List Char}
    (unbroken : IsUnbroken cs) {id : String} {rest : List Token}
    (read : Parser.identifier terminator (tokensFrom offset cs) = .ok (id, rest)) :
    Parser.IsIdentifier terminator id.toList ∧ IsUnbroken id.toList := by
  obtain ⟨ended, ⟨first, later, begun, clean⟩, whole, rfl, -⟩ := Parser.identifierOk read
  obtain ⟨front, start, cs, rfl, ahead⟩ := significantSplit offset cs
  have dark (t : Token) (head : (tokensFrom start cs).head? = .some t) : t.kind.isTrivia = false :=
    Parser.significantHead (ahead ▸ head)
  rw [← Parser.filterSignificant] at ended
  rw [← Parser.idBodySignificant, ahead] at ended begun whole ⊢
  obtain ⟨behind, run, ends⟩ := Parser.runAhead (chainOfTokens start cs) (fun t member => tokenNotEmpty member) dark whole
  have parts := Parser.idParts begun clean whole
  generalize Parser.idBody terminator (tokensFrom start cs) = body at *
  obtain ⟨tail, text, left⟩ := tokensSplit run
  subst text
  have more : tail ≠ [] := by
    rintro rfl
    rw [tokensNil] at left
    rw [run, left, List.append_nil] at ended
    refine ended (congrArg List.length (List.filter_eq_self.mpr fun t member => ?_)).symm
    simp [(parts t member).solid]
  obtain ⟨p, r, rfl⟩ := List.exists_cons_of_ne_nil more
  obtain ⟨w, later, rfl, found⟩ := firstTakes p r
  obtain ⟨stop, escape⟩ : IsBreak p ∧ p ≠ '\\' := by
    rw [tokensCons _ found] at left
    exact breakBehind mark (ends _ (by rw [left]; rfl))
  obtain ⟨alone, others⟩ := runAlike stop escape unbroken.right run rfl fun t member =>
    ⟨(parts t member).solid, (parts t member).valid⟩
  rw [String.toList_ofList]
  refine ⟨⟨?_, fun offset t member => ?_, fun {p} stop offset rest => ?_⟩, unbroken.right.left⟩
  · rintro empty
    rw [empty, tokensNil] at alone
    rw [← alone] at begun
    cases begun
  · obtain ⟨a, inside, kind⟩ := kindAmong start member
    rw [alone] at inside
    exact kind ▸ parts a inside
  · exact others (stop.breaks rest) offset

end ConstraintDesk.Line
