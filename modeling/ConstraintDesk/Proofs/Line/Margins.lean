import ConstraintDesk.Proofs.Line.Derived
import ConstraintDesk.Proofs.Line.Refusals
import ConstraintDesk.Proofs.Line.Separators
import ConstraintDesk.Proofs.Text.Columns

/-! Statements in margins. White space in front of a line moves its tokens, and what stands behind its last
semicolon does not reach back into them, so neither white space nor a comment changes the statement. -/
namespace ConstraintDesk.Line

structure IsMargin (cs : List Char) : Prop where
  unbroken : '\n' ∉ cs
  comment : ∀ c, (cs.dropWhile isSpace).head? = some c → c = '%'

theorem IsMargin.append {front back : List Char} (ahead : IsMargin front) (behind : IsMargin back) :
    IsMargin (front ++ back) := by
  refine ⟨fun feed => (List.mem_append.mp feed).elim ahead.unbroken behind.unbroken, fun c head => ?_⟩
  rw [List.dropWhile_append] at head
  cases left : front.dropWhile isSpace with
  | nil => exact behind.comment c (by simpa [left] using head)
  | cons d r => exact ahead.comment c (by simpa [left] using head)

theorem marginBehind {w : List Char} (blank : ∀ c ∈ w, isSpace c = true) (rest : List Char) :
    IsMargin (w ++ rest) ↔ IsMargin rest := by
  have feed : '\n' ∉ w := fun inside => absurd (blank _ inside) (by decide)
  have left : (w ++ rest).dropWhile isSpace = rest.dropWhile isSpace := List.dropWhile_append_of_pos blank
  constructor
  · rintro ⟨unbroken, comment⟩
    exact ⟨fun inside => unbroken (List.mem_append_right _ inside), left ▸ comment⟩
  · rintro ⟨unbroken, comment⟩
    exact ⟨fun inside => (List.mem_append.mp inside).elim feed unbroken, left ▸ comment⟩

theorem marginIff {offset : Nat} {cs : List Char} : meaning (tokensFrom offset cs) = [] ↔ IsMargin cs := by
  induction cs using byTokens generalizing offset with
  | nil =>
    rw [tokensNil]
    exact iff_of_true rfl ⟨by simp, by simp⟩
  | token c w rest kind found ih =>
    have split : meaning (tokensFrom offset (c :: (w ++ rest))) = [] ↔ kind.isTrivia = true ∧ IsMargin rest := by
      rw [← @ih (offset + Text.byteLength (c :: w)), tokensCons offset found]
      simp [meaning]
    rw [split]
    by_cases space : isSpace c = true
    · obtain ⟨rfl, -, -⟩ := (spaceRun space).mp found
      have margin := marginBehind (spacesOfFirst space found) rest
      exact (and_iff_right rfl).trans margin.symm
    · have whole : (c :: (w ++ rest)).dropWhile isSpace = c :: (w ++ rest) := List.dropWhile_cons_of_neg space
      constructor
      · rintro ⟨trivia, behind⟩
        obtain rfl := (triviaOfFirst (r := w ++ rest) (by rw [found]; exact trivia)).resolve_left space
        obtain ⟨-, unbroken, stops⟩ := commentRun.mp found
        refine ⟨fun feed => ?_, fun c head => by simpa [whole, eq_comm] using head⟩
        simp only [List.mem_cons, List.mem_append] at feed
        rcases feed with feed | inside | inside
        · exact absurd feed (by decide)
        · exact unbroken _ inside rfl
        · exact behind.unbroken inside
      · rintro ⟨unbroken, comment⟩
        obtain rfl : c = '%' := comment c (by rw [whole]; rfl)
        have empty := commentTakesAll (fun inside => unbroken (List.mem_cons_of_mem _ inside)) found
        obtain ⟨rfl, -, -⟩ := commentRun.mp found
        exact ⟨rfl, empty ▸ ⟨by simp, by simp⟩⟩

theorem meaningMoved (shift : Nat) (ts : List Token) :
    meaning (ts.map (Token.moved shift)) = (meaning ts).map (Token.moved shift) := List.filter_map

theorem meaningOfSpaces (offset : Nat) (cs : List Char) : meaning (tokensFrom offset cs)
    = meaning (tokensFrom (offset + Text.byteLength (cs.takeWhile isSpace)) (cs.dropWhile isSpace)) := by
  cases cs with
  | nil => rfl
  | cons c r =>
    by_cases space : isSpace c = true
    · have parts := List.takeWhile_append_dropWhile (p := isSpace) (l := r)
      have found : first c (r.takeWhile isSpace ++ r.dropWhile isSpace)
          = (.whitespace, (r.takeWhile isSpace).length + 1) := by
        rw [parts, first, if_pos space]
      have cut := tokensCons offset found
      rw [parts] at cut
      rw [List.takeWhile_cons_of_pos space, List.dropWhile_cons_of_pos space, cut]
      rfl
    · rw [List.takeWhile_cons_of_neg space, List.dropWhile_cons_of_neg space]
      rfl

theorem meaningBehindSpaces {front : List Char} (blank : ∀ c ∈ front, isSpace c = true) (cs : List Char) :
    meaning (tokens (front ++ cs)) = (meaning (tokens cs)).map (Token.moved (Text.byteLength front)) := by
  have moved := tokensMoved (Text.byteLength front) 0 cs
  rw [tokens, tokens, ← meaningMoved, ← moved, meaningOfSpaces, meaningOfSpaces _ cs,
    List.takeWhile_append_of_pos blank, List.dropWhile_append_of_pos blank, byteLengthAppend]
  congr 2
  omega

theorem IsStatement.ends {cs : List Char} {body : List Token} {s : Statement} (h : IsStatement cs body s) :
    ∃ front semicolon, body = front ++ [semicolon] ∧ semicolon.kind = .semicolon := by
  have expression {e : String} {body : List Token} (states : IsExpression cs body e) :
      ∃ front semicolon, body = front ++ [semicolon] ∧ semicolon.kind = .semicolon := by
    cases states with
    | ended begins clean kind => exact ⟨_ :: _, _, rfl, kind⟩
  cases h with
  | parameter h =>
    cases h with
    | @declared type colon equals semicolon name literal d id l domain behindType named behindName value fits ends =>
      exact ⟨type :: colon :: (name ++ equals :: literal), semicolon, by simp, ends⟩
  | unknown h =>
    cases h with
    | @declared var colon semicolon type name d range id word typed behindType named ends =>
      exact ⟨var :: (type ++ colon :: name), semicolon, by simp, ends⟩
  | constraint h =>
    cases h with
    | @stated constraint colon name body id e word named behindName states =>
      obtain ⟨front, semicolon, rfl, kind⟩ := expression states
      exact ⟨constraint :: (name ++ colon :: front), semicolon, by simp, kind⟩
  | goal h =>
    cases h with
    | @satisfy solve satisfy semicolon word directive ends => exact ⟨[solve, satisfy], semicolon, rfl, ends⟩
    | @minimize solve directive body e word kind states | @maximize solve directive body e word kind states =>
      obtain ⟨front, semicolon, rfl, last⟩ := expression states
      exact ⟨solve :: directive :: front, semicolon, rfl, last⟩

theorem meaningInFront {cs back : List Char} {s : Statement} (derived : IsStatement cs (meaning (tokens cs)) s)
    (margin : IsMargin back) : meaning (tokens (cs ++ back)) = meaning (tokens cs) := by
  obtain ⟨front, semicolon, body, kind⟩ := derived.ends
  obtain ⟨before, rest, split, -, empty⟩ := @meaningSplit _ _ [] _ body
  obtain ⟨behind, rfl, left⟩ := tokensSplit split
  -- The last token that means something is a semicolon, and behind it there is only margin.
  obtain ⟨tail, rfl, rfl, rfl⟩ := separatorAhead isSeparatorSemicolon left.symm kind
  have margins := (marginIff.mp empty).append margin
  have nothing := (@marginIff (0 + Text.byteLength (textOf before) + Text.byteLength [';']) _).mpr margins
  have longer := tokensUpTo isSeparatorSemicolon split rfl (tail ++ back)
  rw [tokensOfMark rfl] at longer
  have whole : textOf before ++ ';' :: tail ++ back = textOf before ++ ';' :: (tail ++ back) := by simp
  rw [whole, tokens, longer, split, meaning, meaning, List.filter_append, List.filter_append,
    List.filter_cons_of_pos rfl, List.filter_cons_of_pos rfl]
  exact congrArg (fun rest => _ ++ _ :: rest) (nothing.trans empty.symm)

theorem betweenInside {a b : Nat} {cs : List Char} (start : a ≤ Text.byteLength cs) (finish : b ≤ Text.byteLength cs)
    (front back : List Char) : Text.between (Text.byteLength front + a) (Text.byteLength front + b) (front ++ (cs ++ back))
      = Text.between a b cs := by
  rw [Text.between, Text.between, Text.takeBytesBehind, Text.takeBytesBehind, Text.takeBytesWithin start,
    Text.takeBytesWithin finish, List.length_append, List.drop_append, List.drop_of_length_le (by omega)]
  simp

section Moved

variable {shift : Nat} {body : List Token}

theorem IsUnsigned.moved {negative : Bool} {t : Token} {l : Literal} (h : IsUnsigned negative t l) :
    IsUnsigned negative (t.moved shift) l := by
  cases h with
  | int kind value => exact .int kind value
  | float kind value => exact .float kind value

theorem IsNumber.moved {l : Literal} (h : IsNumber body l) : IsNumber (body.map (Token.moved shift)) l := by
  cases h with
  | plain value => exact .plain value.moved
  | negated sign value => exact .negated sign value.moved

theorem IsLiteral.moved {l : Literal} (h : IsLiteral body l) : IsLiteral (body.map (Token.moved shift)) l := by
  cases h with
  | true kind => exact .true kind
  | false kind => exact .false kind
  | number value => exact .number value.moved

theorem IsType.moved {d : Domain} {range : Option Bounds} (h : IsType body d range) :
    IsType (body.map (Token.moved shift)) d range := by
  cases h with
  | domain kind => exact .domain kind
  | range min kind max =>
    rw [List.map_append, List.map_cons]
    exact .range min.moved kind max.moved

theorem textOfMoved (ts : List Token) : textOf (ts.map (Token.moved shift)) = textOf ts := by
  rw [textOf, List.flatMap_map]
  rfl

theorem IsId.moved {terminator : TokenKind} {id : String} (h : IsId terminator body id) :
    IsId terminator (body.map (Token.moved shift)) id := by
  obtain ⟨⟨nonempty, parts, adjacent⟩, text⟩ := h
  refine ⟨⟨by simpa using nonempty, List.forall_mem_map.mpr parts, ?_⟩, by rw [textOfMoved, text]⟩
  rw [List.isChain_map]
  refine adjacent.imp fun a b touch => ?_
  have behind : (a.moved shift).finish = shift + a.finish := Nat.add_assoc _ _ _
  rw [behind, touch]
  rfl

theorem IsParameter.moved {p : Parameter} (h : IsParameter body p) : IsParameter (body.map (Token.moved shift)) p := by
  cases h with
  | declared domain behindType named behindName value fits ends =>
    simp only [List.map_cons, List.map_append, List.map_nil]
    exact .declared domain behindType named.moved behindName value.moved fits ends

theorem IsUnknown.moved {v : Variable} (h : IsUnknown body v) : IsUnknown (body.map (Token.moved shift)) v := by
  cases h with
  | declared word typed behindType named ends =>
    simp only [List.map_cons, List.map_append, List.map_nil]
    exact .declared word typed.moved behindType named.moved ends

end Moved

section Inside

variable {cs : List Char} {body : List Token} (front back : List Char)

theorem IsExpression.moved {e : String} (h : IsExpression cs body e) (inside : ∀ t ∈ body, t.start ≤ Text.byteLength cs) :
    IsExpression (front ++ (cs ++ back)) (body.map (Token.moved (Text.byteLength front))) e := by
  cases h with
  | @ended first semicolon body begins clean kind =>
    have text := betweenInside (inside first (by simp)) (inside semicolon (by simp)) front back
    have ahead : ∀ t ∈ (first :: body).map (Token.moved (Text.byteLength front)), isStray t = false :=
      List.forall_mem_map.mpr clean
    rw [← text, List.map_cons, List.map_append]
    exact .ended begins ahead kind

theorem IsConstraint.moved {c : Constraint} (h : IsConstraint cs body c)
    (inside : ∀ t ∈ body, t.start ≤ Text.byteLength cs) :
    IsConstraint (front ++ (cs ++ back)) (body.map (Token.moved (Text.byteLength front))) c := by
  cases h with
  | stated word named behindName states =>
    rw [List.map_cons, List.map_append, List.map_cons]
    exact .stated word named.moved behindName (states.moved front back fun t member => inside t (by simp [member]))

theorem IsGoal.moved {g : Goal} (h : IsGoal cs body g) (inside : ∀ t ∈ body, t.start ≤ Text.byteLength cs) :
    IsGoal (front ++ (cs ++ back)) (body.map (Token.moved (Text.byteLength front))) g := by
  cases h with
  | satisfy word directive ends => exact .satisfy word directive ends
  | minimize word directive states =>
    exact .minimize word directive (states.moved front back fun t member => inside t (by simp [member]))
  | maximize word directive states =>
    exact .maximize word directive (states.moved front back fun t member => inside t (by simp [member]))

theorem IsStatement.moved {s : Statement} (h : IsStatement cs body s) (inside : ∀ t ∈ body, t.start ≤ Text.byteLength cs) :
    IsStatement (front ++ (cs ++ back)) (body.map (Token.moved (Text.byteLength front))) s := by
  cases h with
  | parameter h => exact .parameter h.moved
  | unknown h => exact .unknown h.moved
  | constraint h => exact .constraint (h.moved front back inside)
  | goal h => exact .goal (h.moved front back inside)

end Inside

theorem parseInMargins {front cs back : List Char} (blank : ∀ c ∈ front, isSpace c = true) (margin : IsMargin back)
    {s : Statement} (read : parse cs = .ok s) : parse (front ++ (cs ++ back)) = .ok s := by
  have reads {cs : List Char} : parse cs = .ok s ↔ IsStatement cs (meaning (tokens cs)) s := by
    rw [parseOk, Parser.statementDerived (List.suffix_refl _)]
  have derived := reads.mp read
  rw [reads, meaningBehindSpaces blank, meaningInFront derived margin]
  refine derived.moved front back fun t member => ?_
  obtain ⟨ahead, whole, size⟩ := boundaryOfToken (memberOfMeaning member)
  exact size ▸ Text.byteLengthOfPrefix whole

end ConstraintDesk.Line
