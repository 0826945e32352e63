import ConstraintDesk.Proofs.Line.Expressions
import ConstraintDesk.Proofs.Line.Identifiers
import ConstraintDesk.Proofs.Line.Meaning
import ConstraintDesk.Proofs.Model.Validity
import ConstraintDesk.Proofs.Text.Closing

/-! Expressions closed up to one line. Closing up looks at blanks alone, so it keeps the tokens of an
expression exactly if no token has blanks of another kind than a single space between two characters, and
if a line feed does not free the backslash that an open string ends at. -/
namespace ConstraintDesk

namespace Line

def TokenKind.isSolid (k : TokenKind) : Bool := !k.isTrivia && k ≠ .newline

def substance (cs : List Char) : List (TokenKind × List Char) :=
  ((tokens cs).map Token.lexeme).filter (·.1.isSolid)

/-- Closing up does not touch a token, and does not let an open string reach further than it did. -/
structure StaysClosed (t : Token) (behind : List Token) : Prop where
  spaced : Text.Spaced [] t.text (textOf behind)
  last : t.text.head? = some '"' → t.kind ≠ .string → (behind.filter (·.kind.isSolid)).length ≤ 1

def StayClosed (ts : List Token) : Prop := ∀ t behind, t :: behind <:+ ts → t.kind.isSolid = true → StaysClosed t behind

theorem stayClosedCons {t : Token} {ts : List Token} :
    StayClosed (t :: ts) ↔ (t.kind.isSolid = true → StaysClosed t ts) ∧ StayClosed ts := by
  constructor
  · intro all
    exact ⟨all t ts (List.suffix_refl _), fun u behind inside => all u behind (inside.trans (List.suffix_cons t ts))⟩
  · rintro ⟨first, later⟩ u behind inside solid
    rcases List.suffix_cons_iff.mp inside with same | inner
    · obtain ⟨rfl, rfl⟩ := List.cons.inj same
      exact first solid
    · exact later u behind inner solid

theorem substanceOfTokens (offset : Nat) (cs : List Char) :
    ((tokensFrom offset cs).filter (·.kind.isSolid)).map Token.lexeme = substance cs := by
  rw [substance, ← lexemesOfTokens offset, List.filter_map]
  rfl

theorem substanceNil : substance [] = [] := by rw [substance, tokens, tokensNil]; rfl

variable {c : Char} {w rest : List Char} {kind : TokenKind}

theorem substanceCons (found : first c (w ++ rest) = (kind, w.length + 1)) : substance (c :: (w ++ rest))
    = if kind.isSolid then (kind, c :: w) :: substance rest else substance rest := by
  rw [substance, tokens, tokensCons 0 found, List.map_cons, lexemesOfTokens, List.filter_cons]
  rfl

theorem solidOfFirst (space : isSpace c = false) (comment : c ≠ '%') (feed : c ≠ '\n') (r : List Char) :
    (first c r).1.isSolid = true := by
  have trivia : (first c r).1.isTrivia = false := by
    by_contra trivia
    rcases triviaOfFirst (by simpa using trivia) with blank | mark
    · simp [space] at blank
    · exact comment mark
  have newline : (first c r).1 ≠ .newline := fun kind => feed (charOfMark (by rw [kind]; rfl))
  simp [TokenKind.isSolid, trivia, newline]

theorem gapOrSolid (comment : c ≠ '%') (found : first c (w ++ rest) = (kind, w.length + 1)) :
    (kind.isSolid = false ∧ ∀ d ∈ c :: w, Text.isBlank d = true) ∨ kind.isSolid = true ∧ isSpace c = false ∧ c ≠ '\n' := by
  by_cases space : isSpace c = true
  · refine .inl ⟨by rw [((spaceRun space).mp found).1]; rfl, fun d inside => ?_⟩
    by_contra dark
    have other := spaceOfDark (by simpa using dark)
    rw [spacesOfFirst space found d inside] at other
    cases other
  by_cases feed : c = '\n'
  · subst feed
    have newline : first '\n' (w ++ rest) = (.newline, 1) := rfl
    rw [newline] at found
    obtain ⟨rfl, size⟩ := Prod.mk.inj found
    obtain rfl := List.length_eq_zero_iff.mp (Nat.succ.inj size).symm
    exact .inl ⟨rfl, by simp [show Text.isBlank '\n' = true by decide]⟩
  · rw [Bool.not_eq_true] at space
    have solid := solidOfFirst space comment feed (w ++ rest)
    rw [found] at solid
    exact .inr ⟨solid, space, feed⟩

theorem darkOfLetter {c : Char} (start : isWordStart c = true) : Text.isBlank c = false := by
  have small : ('a').val.toNat = 97 ∧ ('z').val.toNat = 122 := ⟨rfl, rfl⟩
  have capital : ('A').val.toNat = 65 ∧ ('Z').val.toNat = 90 := ⟨rfl, rfl⟩
  have code : c.toNat = c.val.toNat := rfl
  simp only [isWordStart, Bool.or_eq_true, Bool.and_eq_true, decide_eq_true_eq, Char.le_def,
    UInt32.le_iff_toNat_le] at start
  rcases start with letter | rfl
  · simp only [Text.isBlank, Bool.or_eq_false_iff, Bool.and_eq_false_iff, decide_eq_false_iff_not,
      beq_eq_false_iff_ne]
    omega
  · decide

theorem isBreakBlank {p : Char} (blank : Text.isBlank p = true) : IsBreak p := by
  have other {d : Char} (dark : Text.isBlank d = false) : p ≠ d := by
    rintro rfl
    simp [blank] at dark
  refine ⟨?_, other (by decide), other (by decide), other (by decide)⟩
  by_contra word
  simp only [isWordChar, Bool.not_eq_false, Bool.or_eq_true] at word
  have dark : Text.isBlank p = false := word.elim darkOfLetter Decimal.darkDigit
  simp [blank] at dark

theorem breaksBlank {tail : List Char} (blank : ∀ p, tail.head? = some p → Text.isBlank p = true) : Breaks tail :=
  fun p head => isBreakBlank (blank p head)

theorem firstOfClosing (space : isSpace c = false) (comment : c ≠ '%') (string : c ≠ '"') (r : List Char) :
    first c (Text.closeBehind r) = first c r ∧ ∀ d ∈ r.take ((first c r).2 - 1), Text.isBlank d = false := by
  obtain ⟨word, tail, left, rfl, closed, dark, next, spaces⟩ := Text.closeParts r
  have ends : Breaks left := breaksBlank fun p head => by rw [spaces p head]; decide
  rw [closed, firstAhead ends space comment string, firstAhead (breaksBlank next) space comment string]
  refine ⟨rfl, fun d inside => dark d ?_⟩
  have bound := (firstBound c word).2
  rw [List.take_append_of_le_length (by omega)] at inside
  exact List.mem_of_mem_take inside

theorem substanceBehind (cs : List Char) : substance (Text.closeBehind cs) = substance (Text.oneLine cs) := by
  cases cs with
  | nil => rfl
  | cons c r =>
    cases blank : Text.isBlank c with
    | false => rw [Text.closeBehindHead blank]
    | true =>
      rw [Text.closeBehindBlank blank, Text.oneLineOfBlank blank]
      split
      · next empty => rw [empty]
      · have dark : (Text.oneLine r).takeWhile isSpace = [] := by
          cases ahead : Text.oneLine r with
          | nil => rfl
          | cons d later =>
            have front : (Text.oneLine r).head? = some d := by rw [ahead]; rfl
            have space := spaceOfDark (Text.oneLineHead front)
            rw [List.takeWhile_cons_of_neg (by simp [space])]
        have space : first ' ' ([] ++ Text.oneLine r) = (.whitespace, ([] : List Char).length + 1) := by
          rw [List.nil_append, first, if_pos (by decide), dark]
        exact substanceCons space

theorem nothingLeft {cs : List Char} (clean : '%' ∉ cs) (empty : substance cs = []) : Text.oneLine cs = [] := by
  induction cs using byTokens with
  | nil => rfl
  | token c w rest kind found ih =>
    simp only [List.mem_cons, List.mem_append, not_or] at clean
    obtain ⟨comment, -, behind⟩ := clean
    rw [substanceCons found] at empty
    rcases gapOrSolid (Ne.symm comment) found with ⟨gap, blank⟩ | ⟨solid, -⟩
    · rw [← List.cons_append, Text.oneLineOfBlanks blank]
      exact ih behind (by simpa [gap] using empty)
    · simp [solid] at empty

theorem firstKept {left : List Char} (dark : Text.isBlank c = false) (comment : c ≠ '%') (clean : '%' ∉ rest)
    (found : first c (w ++ rest) = (kind, w.length + 1)) (kept : Text.closeBehind (w ++ rest) = w ++ left)
    (closed : left = Text.closeBehind rest ∨ left = Text.oneLine rest)
    (last : c = '"' → kind ≠ .string → (substance rest).length ≤ 1) : first c (w ++ left) = (kind, w.length + 1) := by
  by_cases string : c = '"'
  · subst string
    cases quoteToken found with
    | @closed u ends body =>
      subst ends
      rw [List.append_assoc, List.singleton_append, firstOfClosed body, List.length_append]
      rfl
    | opened stops body =>
      have few := last rfl (by split <;> decide)
      have still : StopsBody left := by
        cases stops with
        | ended =>
          obtain rfl : left = [] := closed.elim id id
          exact .ended
        | escape =>
          have one : Text.oneLine ['\\'] = ['\\'] := Text.oneLineSingle (by decide)
          rw [Text.closeBehindHead (by decide), one, or_self] at closed
          exact closed ▸ .escape
        | broken r =>
          have escape : first '\\' ([] ++ '\n' :: r) = (.symbol, ([] : List Char).length + 1) := rfl
          have feed : first '\n' ([] ++ r) = (.newline, ([] : List Char).length + 1) := rfl
          have parts : substance ('\\' :: '\n' :: r) = (.symbol, ['\\']) :: substance r := by
            rw [← List.nil_append ('\n' :: r), substanceCons escape, ← List.nil_append r, substanceCons feed]
            rfl
          rw [parts] at few
          have empty : Text.oneLine r = [] := nothingLeft (by simp_all) (by simpa using few)
          rw [Text.closeBehindHead (by decide), or_self, Text.oneLineBehind (by decide),
            Text.closeBehindBlank (by decide), if_pos empty] at closed
          exact closed ▸ .escape
      rw [firstOfOpen (body left still)]
  · rw [← kept, (firstOfClosing (spaceOfDark dark) comment string _).1, found]

theorem blanksApart (dark : Text.isBlank c = false) (comment : c ≠ '%')
    (found : first c (w ++ rest) = (kind, w.length + 1)) :
    ∀ p, rest.head? = some p → Text.isBlank p = true → ∀ d, w.getLast? = some d → Text.isBlank d = false := by
  intro p head blank d final
  by_cases string : c = '"'
  · subst string
    cases quoteToken found with
    | closed ends =>
      obtain rfl : '"' = d := by simpa [ends] using final
      decide
    | opened stops =>
      cases stops with
      | ended => cases head
      | escape | broken =>
        cases head
        exact absurd blank (by decide)
  · have inner := (firstOfClosing (spaceOfDark dark) comment string (w ++ rest)).2
    rw [found, Nat.add_sub_cancel, List.take_left] at inner
    exact inner d (List.mem_of_getLast? final)

theorem spacedIff (dark : Text.isBlank c = false) (comment : c ≠ '%')
    (found : first c (w ++ rest) = (kind, w.length + 1)) :
    w <+: Text.closeBehind (w ++ rest) ↔ Text.Spaced [] (c :: w) rest := by
  have kept := @Text.keptIff [c] w rest (.inl ⟨c, rfl, dark⟩) (blanksApart dark comment found)
  rw [kept, Text.spacedCons]
  simp [dark]

theorem insideOfSubstance {cs text : List Char} {k : TokenKind} (member : (k, text) ∈ substance cs) :
    ∀ d ∈ text, d ∈ cs := by
  obtain ⟨inside, -⟩ := List.mem_filter.mp member
  obtain ⟨t, token, same⟩ := List.mem_map.mp inside
  obtain ⟨front, c, w, rest, rfl, -, written⟩ := tokenMember token
  obtain rfl : t.text = text := congrArg Prod.snd same
  intro d here
  rw [written] at here
  exact List.mem_append_right _ (List.mem_append_left rest here)

theorem blankGone (solid : isSpace c = false) (blank : Text.isBlank c = true) {cs w : List Char} {k : TokenKind} :
    (k, c :: w) ∉ substance (Text.oneLine cs) := by
  intro member
  rcases Text.charOfOneLine (insideOfSubstance member c List.mem_cons_self) with rfl | ⟨dark, -⟩
  · exact absurd solid (by decide)
  · simp [blank] at dark

section Kept

variable (dark : Text.isBlank c = false) (comment : c ≠ '%')

include dark comment

theorem substanceKept (clean : '%' ∉ rest) (found : first c (w ++ rest) = (kind, w.length + 1))
    (solid : kind.isSolid = true) (kept : w <+: Text.closeBehind (w ++ rest))
    (last : c = '"' → kind ≠ .string → (substance rest).length ≤ 1) :
    substance (Text.oneLine (c :: (w ++ rest))) = (kind, c :: w) :: substance (Text.oneLine rest) := by
  obtain ⟨left, parts, closed⟩ := Text.closeKept kept
  have same : substance left = substance (Text.oneLine rest) := by
    rcases closed with rfl | rfl
    · exact substanceBehind rest
    · rfl
  rw [Text.oneLineBehind dark, parts, substanceCons (firstKept dark comment clean found parts closed last), if_pos solid,
    same]

theorem keptOfSubstance (feed : c ≠ '\n')
    (same : substance (Text.oneLine (c :: (w ++ rest))) = (kind, c :: w) :: substance rest) :
    ∃ left, Text.closeBehind (w ++ rest) = w ++ left ∧ first c (w ++ left) = (kind, w.length + 1)
      ∧ substance left = substance rest ∧ substance left = substance (Text.oneLine rest) := by
  obtain ⟨v, left, parts, token⟩ := firstTakes c (Text.closeBehind (w ++ rest))
  have solid := solidOfFirst (spaceOfDark dark) comment feed (Text.closeBehind (w ++ rest))
  rw [Text.oneLineBehind dark, parts, substanceCons (parts ▸ token), ← parts, if_pos solid, List.cons.injEq,
    Prod.mk.injEq, List.cons.injEq] at same
  obtain ⟨⟨kinds, -, rfl⟩, later⟩ := same
  obtain ⟨other, again, closed⟩ := Text.closeKept ⟨left, parts.symm⟩
  obtain rfl := List.append_cancel_left (parts.symm.trans again)
  refine ⟨left, parts, by rw [← parts, token, kinds], later, ?_⟩
  rcases closed with rfl | rfl
  · exact substanceBehind rest
  · rfl

end Kept

theorem fewBehindOpen {left : List Char} (unbroken : '\n' ∉ left) (valid : kind ≠ .string)
    (found : first '"' (w ++ left) = (kind, w.length + 1)) : (substance left).length ≤ 1 := by
  cases quoteToken found with
  | closed => exact absurd rfl valid
  | opened stops =>
    cases stops with
    | ended => simp [substanceNil]
    | escape =>
      have escape : first '\\' ([] ++ []) = (.symbol, ([] : List Char).length + 1) := rfl
      rw [← List.nil_append [], substanceCons escape, substanceNil]
      rfl
    | broken r => simp at unbroken

theorem substanceOneLine {cs : List Char} (clean : '%' ∉ cs) (offset : Nat) :
    substance (Text.oneLine cs) = substance cs ↔ StayClosed (tokensFrom offset cs) := by
  induction cs using byTokens generalizing offset with
  | nil =>
    rw [tokensNil]
    exact iff_of_true rfl fun t behind inside => by simp at inside
  | token c w rest kind found ih =>
    simp only [List.mem_cons, List.mem_append, not_or] at clean
    obtain ⟨comment, -, behind⟩ := clean
    have comment := Ne.symm comment
    have text := textOfTokens (offset + Text.byteLength (c :: w)) rest
    have count := congrArg List.length (substanceOfTokens (offset + Text.byteLength (c :: w)) rest)
    rw [List.length_map] at count
    rw [tokensCons offset found, stayClosedCons, ← ih behind, substanceCons found]
    rcases gapOrSolid comment found with ⟨gap, blank⟩ | ⟨solid, space, feed⟩
    · rw [← List.cons_append, Text.oneLineOfBlanks blank]
      simp [gap]
    rw [if_pos solid]
    cases dark : Text.isBlank c with
    | true =>
      refine iff_of_false (fun same => ?_) fun ⟨stays, _⟩ => ?_
      · exact blankGone space dark (same ▸ List.mem_cons_self)
      · obtain ⟨rfl, -⟩ := (stays solid).spaced [] c w rfl dark
        exact absurd space (by decide)
    | false =>
      constructor
      · intro same
        obtain ⟨left, parts, token, later, closed⟩ := keptOfSubstance dark comment feed same
        refine ⟨fun _ => ⟨?_, fun quote other => ?_⟩, closed.symm.trans later⟩
        · rw [text]
          exact (spacedIff dark comment found).mp ⟨left, parts.symm⟩
        · obtain rfl : c = '"' := Option.some.inj quote
          rw [count, ← later]
          have unbroken : IsUnbroken (['"'] ++ (w ++ left)) := by
            rw [List.singleton_append, ← parts, ← Text.oneLineBehind dark]
            exact .oneLine _
          exact fewBehindOpen unbroken.right.right other token
      · rintro ⟨stays, later⟩
        obtain ⟨spaced, last⟩ := stays solid
        rw [text] at spaced
        have kept := (spacedIff dark comment found).mpr spaced
        rw [← later]
        exact substanceKept dark comment behind found solid kept fun quote other =>
          count ▸ last (congrArg some quote) other

theorem solidOfMeaning (ts : List Token) :
    (meaning ts).filter (·.kind ≠ .newline) = ts.filter (·.kind.isSolid) := by
  rw [meaning, List.filter_filter]
  exact List.filter_congr fun t _ => by rw [TokenKind.isSolid, Bool.and_comm]

theorem meaningOfUnbroken {cs : List Char} (unbroken : '\n' ∉ cs) :
    (meaning (tokens cs)).map Token.lexeme = substance cs := by
  rw [← substanceOfTokens 0, ← solidOfMeaning]
  refine congrArg _ (List.filter_eq_self.mpr fun t inside => ?_).symm
  obtain ⟨front, c, w, rest, rfl, found, -⟩ := tokenMember (memberOfMeaning inside)
  refine decide_eq_true fun newline => unbroken ?_
  obtain rfl : c = '\n' := charOfMark (r := w ++ rest) (by rw [found, newline]; rfl)
  simp

end Line

theorem expressionsOnOneLine (e : String) (accepted : expressionFlaw? e = none) :
    (Line.meaning (Line.tokens (Text.oneLine e.toList))).map Line.Token.lexeme
        = ((Line.meaning (Line.tokens e.toList)).filter (·.kind ≠ .newline)).map Line.Token.lexeme
      ↔ Line.StayClosed (Line.tokens e.toList) := by
  have clean := (expressionFlawNone.mp accepted).uncommented
  rw [Line.meaningOfUnbroken (IsUnbroken.oneLine e.toList), Line.solidOfMeaning, Line.tokens, Line.substanceOfTokens,
    Line.substanceOneLine clean 0]

theorem sumOverTwoLines : Line.StayClosed (Line.tokens "x +\r\n\ty".toList) :=
  (expressionsOnOneLine "x +\r\n\ty" (by decide)).mp (by decide +kernel)

theorem spacesInAString : ¬ ∀ e : String, expressionFlaw? e = none →
    (Line.meaning (Line.tokens (Text.oneLine e.toList))).map Line.Token.lexeme
      = ((Line.meaning (Line.tokens e.toList)).filter (·.kind ≠ .newline)).map Line.Token.lexeme := by
  intro all
  have same := all "x = \"a  b\"" (by decide)
  exact absurd same (by decide +kernel)

end ConstraintDesk
