import ConstraintDesk.Proofs.Line.Pieces
import ConstraintDesk.Proofs.Text.Words

/-! Strings and comments in the text in front of a semicolon. Whether the semicolon stands on its own is
decided by the quotes, backslashes and percent signs in front of it alone. -/
namespace ConstraintDesk.Line

def quotesClosed : Bool → List Char → Bool
  | inside, [] => !inside
  | true, '\\' :: _ :: r => quotesClosed true r
  | inside, c :: r => if c = '"' then quotesClosed (!inside) r else quotesClosed inside r

inductive Quoting where
  | outside
  | inside
  | escaped
  | commented
  deriving DecidableEq

namespace Quoting

def step : Quoting → Char → Quoting
  | outside, c => if c = '"' then inside else if c = '%' then commented else outside
  | inside, c => if c = '"' then outside else if c = '\\' then escaped else inside
  | escaped, _ => inside
  | commented, _ => commented

def after (q : Quoting) (cs : List Char) : Quoting := cs.foldl step q

@[simp] theorem afterNil (q : Quoting) : q.after [] = q := rfl

@[simp] theorem afterCons (q : Quoting) (c : Char) (r : List Char) : q.after (c :: r) = (q.step c).after r := rfl

theorem afterAppend (q : Quoting) (front back : List Char) : q.after (front ++ back) = (q.after front).after back :=
  List.foldl_append

theorem afterComment (cs : List Char) : commented.after cs = commented := by
  induction cs with
  | nil => rfl
  | cons c r ih => exact ih

theorem afterPlain {w : List Char} (string : '"' ∉ w) (comment : '%' ∉ w) : outside.after w = outside := by
  induction w with
  | nil => rfl
  | cons c w ih =>
    rw [List.mem_cons, not_or] at string comment
    rw [afterCons, step, if_neg (Ne.symm string.1), if_neg (Ne.symm comment.1), ih string.2 comment.2]

theorem afterOpen {q : Quoting} {e : List Char} (opened : q.after (e ++ [';']) ≠ outside) : q.after e ≠ outside := by
  intro closed
  rw [afterAppend, closed] at opened
  exact opened rfl

theorem stepBlank (q : Quoting) {c : Char} (blank : Text.isBlank c = true) : q.step c = q.step ' ' := by
  have other {d : Char} (dark : Text.isBlank d = false) : c ≠ d := by
    rintro rfl
    simp [blank] at dark
  have string : c ≠ '"' := other (by decide)
  have escape : c ≠ '\\' := other (by decide)
  have comment : c ≠ '%' := other (by decide)
  cases q <;> simp [step, string, escape, comment]

theorem spaceOutside {q : Quoting} : q.step ' ' = outside ↔ q = outside := by
  cases q <;> decide

theorem spaceTwice (q : Quoting) : (q.step ' ').step ' ' = q.step ' ' := by
  cases q <;> rfl

theorem afterBlanks {cs : List Char} (blank : ∀ c ∈ cs, Text.isBlank c = true) {q : Quoting} :
    q.after cs = outside ↔ q = outside := by
  induction cs generalizing q with
  | nil => rfl
  | cons c r ih =>
    rw [afterCons, ih fun d member => blank d (by simp [member]), stepBlank q (blank c (by simp)), spaceOutside]

theorem afterTrim (cs : List Char) : outside.after (Text.trim cs) = outside ↔ outside.after cs = outside := by
  obtain ⟨front, back, parts, leading, trailing⟩ := Text.trimParts cs
  have start : outside.after front = outside := (afterBlanks leading).mpr rfl
  conv_rhs => rw [parts, afterAppend, afterAppend, start, afterBlanks trailing]

theorem afterWords (cs : List Char) {q : Quoting}
    (apart : q.step ' ' = q ∨ ∀ c, cs.head? = some c → Text.isBlank c = false) :
    q.after (Text.oneLine cs) = outside ↔ q.after cs = outside := by
  induction cs using Text.byWords generalizing q with
  | nil => rfl
  | blank c r blank ih =>
    have spaced : q.step ' ' = q := apart.resolve_right fun dark => by simp [blank] at dark
    rw [Text.oneLineOfBlank blank, afterCons, stepBlank q blank, spaced]
    exact ih (.inl spaced)
  | single c dark => rw [Text.oneLineSingle dark]
  | joined c d r first second ih =>
    rw [Text.oneLineJoined first second, afterCons, afterCons]
    refine ih (.inr fun e head => ?_)
    cases head
    exact second
  | apart c d r dark blank ih =>
    have later := ih (q := (q.step c).step ' ') (.inl (spaceTwice _))
    rw [Text.oneLineApart dark blank, afterCons q c (d :: r), afterCons, stepBlank _ blank, ← later]
    split
    · next empty => rw [empty, afterCons, afterNil, afterNil, spaceOutside]
    · rfl

theorem afterOneLine (cs : List Char) : outside.after (Text.oneLine cs) = outside ↔ outside.after cs = outside :=
  afterWords cs (.inl rfl)

end Quoting

open Quoting (outside inside)

theorem closedIff {e : List Char} (uncommented : '%' ∉ e) (b : Bool) :
    quotesClosed b e = true ↔ (if b then inside else outside).after e = outside := by
  fun_induction quotesClosed b e with
  | case1 b => cases b <;> simp
  | case2 c r ih =>
    have later := ih fun member => uncommented (by simp [member])
    simpa [Quoting.step] using later
  | case3 b r pair ih =>
    have later := ih fun member => uncommented (by simp [member])
    cases b <;> simpa [Quoting.step] using later
  | case4 b c r pair string ih =>
    rw [List.mem_cons, not_or] at uncommented
    have later := ih uncommented.2
    cases b with
    | false => simpa [Quoting.step, string, Ne.symm uncommented.1] using later
    | true =>
      by_cases escape : c = '\\'
      · cases r with
        | nil => simp [escape, quotesClosed, Quoting.step]
        | cons d r => exact absurd rfl (pair d r rfl (by rw [escape]))
      · simpa [Quoting.step, string, escape] using later

inductive StopsBody : List Char → Prop
  | ended : StopsBody []
  | escape : StopsBody ['\\']
  | broken (rest : List Char) : StopsBody ('\\' :: '\n' :: rest)

theorem StopsBody.body {y : List Char} (stops : StopsBody y) : stringBody y = (0, false) := by
  cases stops with
  | ended | escape => rfl
  | broken rest => simp [stringBody]

inductive IsBody : List Char → Prop
  | nil : IsBody []
  | char {c : Char} {r : List Char} (quote : c ≠ '"') (escape : c ≠ '\\') (behind : IsBody r) : IsBody (c :: r)
  | pair {c : Char} {r : List Char} (solid : c ≠ '\n') (behind : IsBody r) : IsBody ('\\' :: c :: r)

theorem bodyOfChar {c : Char} (quote : c ≠ '"') (escape : c ≠ '\\') (r : List Char) :
    stringBody (c :: r) = stringBody.longer 1 (stringBody r) := by
  rw [stringBody]
  · rw [if_neg quote, if_neg escape]
  · exact fun _ _ same => absurd same escape

theorem bodyOfPair {c : Char} (solid : c ≠ '\n') (r : List Char) :
    stringBody ('\\' :: c :: r) = stringBody.longer 2 (stringBody r) := by
  rw [stringBody, if_neg solid]

namespace IsBody

variable {body : List Char} (h : IsBody body)

include h

theorem read (y : List Char) : stringBody (body ++ y) = stringBody.longer body.length (stringBody y) := by
  induction h with
  | nil => rfl
  | char quote escape _ ih => rw [List.cons_append, bodyOfChar quote escape, ih]; rfl
  | pair solid _ ih => rw [List.cons_append, List.cons_append, bodyOfPair solid, ih]; rfl

theorem closed (y : List Char) : stringBody (body ++ '"' :: y) = (body.length, true) := by
  rw [h.read]
  simp [stringBody, stringBody.longer]

theorem stopped {y : List Char} (stops : StopsBody y) : stringBody (body ++ y) = (body.length, false) := by
  rw [h.read, stops.body]
  simp [stringBody.longer]

theorem bound {x : List Char} (ahead : body <+: x) : body.length ≤ (stringBody x).1 := by
  obtain ⟨rest, rfl⟩ := ahead
  rw [h.read]
  exact Nat.le_add_left _ _

theorem after : inside.after body = inside := by
  induction h with
  | nil => rfl
  | char quote escape _ ih =>
    rw [Quoting.afterCons, Quoting.step, if_neg quote, if_neg escape]
    exact ih
  | pair solid _ ih => exact ih

end IsBody

theorem bodyCut (x : List Char) : ∃ u v, x = u ++ v ∧ IsBody u ∧ ((∃ r, v = '"' :: r) ∨ StopsBody v) := by
  induction x using stringBody.induct with
  | case1 => exact ⟨[], [], rfl, .nil, .inr .ended⟩
  | case2 r => exact ⟨[], _, rfl, .nil, .inr (.broken r)⟩
  | case3 c r solid ih =>
    obtain ⟨u, v, rfl, inside, ends⟩ := ih
    exact ⟨'\\' :: c :: u, v, rfl, .pair solid inside, ends⟩
  | case4 r => exact ⟨[], _, rfl, .nil, .inl ⟨r, rfl⟩⟩
  | case5 r pair =>
    cases r with
    | nil => exact ⟨[], _, rfl, .nil, .inr .escape⟩
    | cons d r => exact absurd rfl (pair d r rfl)
  | case6 c r pair quote escape ih =>
    obtain ⟨u, v, rfl, inside, ends⟩ := ih
    exact ⟨c :: u, v, rfl, .char quote escape inside, ends⟩

theorem bodyParts (x : List Char) : ∃ u v, x = u ++ v ∧ inside.after u = inside
    ∧ ((∃ r, v = '"' :: r ∧ ∀ y, stringBody (u ++ '"' :: y) = (u.length, true))
      ∨ StopsBody v ∧ ∀ y, StopsBody y → stringBody (u ++ y) = (u.length, false)) := by
  obtain ⟨u, v, same, body, ends⟩ := bodyCut x
  refine ⟨u, v, same, body.after, ends.imp ?_ ?_⟩
  · rintro ⟨r, rfl⟩
    exact ⟨r, rfl, body.closed⟩
  · exact fun stops => ⟨stops, fun y => body.stopped⟩

theorem firstOfClosed {u : List Char} (body : ∀ y, stringBody (u ++ '"' :: y) = (u.length, true)) (y : List Char) :
    first '"' (u ++ '"' :: y) = (.string, u.length + 2) := by
  have token (x : List Char) : first '"' x = quote x := rfl
  rw [token, quote, body]

theorem firstOfOpen {x : List Char} {n : Nat} (body : stringBody x = (n, false)) :
    first '"' x = (if n = 0 then .symbol else .invalid, n + 1) := by
  have token (x : List Char) : first '"' x = quote x := rfl
  rw [token, quote, body]
  cases n <;> rfl

inductive QuoteToken (w rest : List Char) : TokenKind → Prop
  | closed {u : List Char} (ends : w = u ++ ['"']) (body : ∀ y, stringBody (u ++ '"' :: y) = (u.length, true)) :
      QuoteToken w rest .string
  | opened (stops : StopsBody rest) (body : ∀ y, StopsBody y → stringBody (w ++ y) = (w.length, false)) :
      QuoteToken w rest (if w.length = 0 then .symbol else .invalid)

theorem quoteToken {w rest : List Char} {kind : TokenKind} (found : first '"' (w ++ rest) = (kind, w.length + 1)) :
    QuoteToken w rest kind := by
  obtain ⟨u, v, same, -, ⟨r, rfl, body⟩ | ⟨stops, body⟩⟩ := bodyParts (w ++ rest)
  · rw [same, firstOfClosed body] at found
    obtain ⟨rfl, size⟩ := Prod.mk.inj found
    have cut : w ++ rest = (u ++ ['"']) ++ r := by simpa using same
    exact .closed (List.append_inj_left cut (by simpa using size.symm)) body
  · rw [same, firstOfOpen (body v stops)] at found
    obtain ⟨rfl, size⟩ := Prod.mk.inj found
    obtain ⟨rfl, rfl⟩ := List.append_inj same (by simpa using size.symm)
    exact .opened stops body

theorem bodyOfString {x : List Char} (unbroken : '\n' ∉ x) :
    (∃ u v, x = u ++ '"' :: v ∧ (∀ y, stringBody (u ++ '"' :: y) = (u.length, true)) ∧ inside.after u = inside)
      ∨ ∃ n, stringBody x = (n, false) ∧ inside.after x ≠ outside ∧ (n = 0 → x = [] ∨ x = ['\\']) := by
  obtain ⟨u, v, rfl, after, ⟨r, rfl, body⟩ | ⟨stops, body⟩⟩ := bodyParts x
  · exact .inl ⟨u, r, rfl, body, after⟩
  · refine .inr ⟨u.length, body v stops, ?_, fun zero => ?_⟩
    · rw [Quoting.afterAppend, after]
      cases stops with
      | ended | escape => decide
      | broken r => simp at unbroken
    · obtain rfl := List.length_eq_zero_iff.mp zero
      cases stops with
      | ended => exact .inl rfl
      | escape => exact .inr rfl
      | broken r => simp at unbroken

theorem quoteAhead {x : List Char} (unbroken : '\n' ∉ x) :
    (∃ u v, x = u ++ '"' :: v ∧ (∀ y, first '"' (u ++ '"' :: y) = (.string, u.length + 2))
        ∧ outside.after ('"' :: (u ++ ['"'])) = outside)
      ∨ outside.after ('"' :: x) ≠ outside ∧ ((first '"' x).1 = .invalid ∨ x = [] ∨ x = ['\\']) := by
  have opened : outside.step '"' = inside := rfl
  rcases bodyOfString unbroken with ⟨u, v, same, body, after⟩ | ⟨n, body, after, few⟩
  · refine Or.inl ⟨u, v, same, firstOfClosed body, ?_⟩
    rw [Quoting.afterCons, opened, Quoting.afterAppend, after]
    rfl
  · refine Or.inr ⟨after, ?_⟩
    rw [firstOfOpen body]
    cases n with
    | zero => exact Or.inr (few rfl)
    | succ n => exact Or.inl rfl

theorem stringTaken {w rest : List Char} {kind : TokenKind} {p : Char} (unbroken : '\n' ∉ w ++ rest)
    (found : first '"' (w ++ rest) = (kind, w.length + 1)) (valid : kind ≠ .invalid) (inside : p ∈ w ++ rest)
    (escape : p ≠ '\\') :
    ∃ u, w = u ++ ['"'] ∧ (∀ y, first '"' (w ++ y) = (kind, w.length + 1)) ∧ outside.after ('"' :: w) = outside := by
  rcases quoteAhead unbroken with ⟨u, v, same, token, after⟩ | ⟨-, invalid | few⟩
  · rw [same, token] at found
    obtain ⟨rfl, size⟩ := Prod.mk.inj found
    have length : w.length = (u ++ ['"']).length := by simpa using size.symm
    have cut : w ++ rest = (u ++ ['"']) ++ v := by simpa using same
    obtain rfl := List.append_inj_left cut length
    refine ⟨u, rfl, fun y => ?_, after⟩
    rw [List.append_assoc, List.singleton_append, token, size]
  · rw [found] at invalid
    exact absurd invalid valid
  · rcases few with empty | one
    · simp [empty] at inside
    · exact absurd (by simpa [one] using inside) escape

theorem isBreakQuote : IsBreak '"' := ⟨by decide, by decide, by decide, by decide⟩

theorem isBreakPercent : IsBreak '%' := ⟨by decide, by decide, by decide, by decide⟩

theorem breakOutside {c p : Char} {w rest : List Char} {kind : TokenKind} (stop : IsBreak p)
    (dark : isSpace p = false) (comment : c ≠ '%') (string : c ≠ '"')
    (found : first c (w ++ rest) = (kind, w.length + 1)) : p ∉ w := by
  intro member
  obtain ⟨u, v, rfl⟩ := List.append_of_mem member
  have bound := (firstBound c u).2
  have short := firstBefore stop (fun _ => dark) comment string u (v ++ rest)
  rw [List.append_assoc, List.cons_append, short] at found
  rw [found] at bound
  simp at bound

structure IsTerminated (cs : List Char) : Prop where
  valid : .invalid ∉ (tokens cs).map (·.kind)
  ends : ((tokens cs).map (·.kind)).getLast? = some .semicolon

theorem terminatedBehind {c : Char} {w rest : List Char} {kind : TokenKind}
    (found : first c (w ++ rest) = (kind, w.length + 1)) (valid : kind ≠ .invalid) (nonempty : rest ≠ []) :
    IsTerminated (c :: (w ++ rest)) ↔ IsTerminated rest := by
  have kinds : (tokens (c :: (w ++ rest))).map (·.kind) = kind :: (tokens rest).map (·.kind) := by
    rw [tokens, tokensCons 0 found, List.map_cons, kindsOfTokens]
  have more : (tokens rest).map (·.kind) ≠ [] := by
    obtain ⟨d, r, rfl⟩ := List.exists_cons_of_ne_nil nonempty
    obtain ⟨v, behind, rfl, same⟩ := firstTakes d r
    rw [tokens, tokensCons 0 same]
    simp
  have last := List.getLast?_cons_of_ne_nil (x := kind) more
  constructor
  · rintro ⟨clean, ends⟩
    rw [kinds] at clean ends
    exact ⟨fun inside => clean (List.mem_cons_of_mem _ inside), last ▸ ends⟩
  · rintro ⟨clean, ends⟩
    refine ⟨?_, by rw [kinds, last, ends]⟩
    rw [kinds, List.mem_cons, not_or]
    exact ⟨valid.symm, clean⟩

theorem commentTakesAll {w rest : List Char} {kind : TokenKind} (unbroken : '\n' ∉ w ++ rest)
    (found : first '%' (w ++ rest) = (kind, w.length + 1)) : rest = [] := by
  obtain ⟨-, -, stops⟩ := commentRun.mp found
  cases rest with
  | nil => rfl
  | cons d rest => simp [stops d rfl] at unbroken

theorem plainToken {c : Char} {w rest : List Char} {kind : TokenKind} (string : c ≠ '"') (comment : c ≠ '%')
    (found : first c (w ++ rest) = (kind, w.length + 1)) : outside.after (c :: w) = outside := by
  refine Quoting.afterPlain ?_ ?_
  · rw [List.mem_cons, not_or]
    exact ⟨Ne.symm string, breakOutside isBreakQuote (by decide) comment string found⟩
  · rw [List.mem_cons, not_or]
    exact ⟨Ne.symm comment, breakOutside isBreakPercent (by decide) comment string found⟩

theorem outsideBehind {c : Char} {w rest : List Char} {kind : TokenKind} (unbroken : '\n' ∉ w ++ rest)
    (found : first c (w ++ rest) = (kind, w.length + 1)) (valid : kind ≠ .invalid) (more : ';' ∈ rest) :
    outside.after (c :: w) = outside := by
  by_cases comment : c = '%'
  · subst comment
    rw [commentTakesAll unbroken found] at more
    cases more
  by_cases string : c = '"'
  · subst string
    have semicolon : ';' ∈ w ++ rest := by simp [more]
    obtain ⟨-, -, -, after⟩ := stringTaken unbroken found valid semicolon (by decide)
    exact after
  · exact plainToken string comment found

theorem outsideOfTokens {body rest : List Token} {offset : Nat} {cs : List Char} (unbroken : '\n' ∉ cs)
    (split : tokensFrom offset cs = body ++ rest) (valid : ∀ t ∈ body, t.kind ≠ .invalid) (more : ';' ∈ textOf rest) :
    outside.after (textOf body) = outside := by
  induction body generalizing offset cs with
  | nil => rfl
  | cons t body ih =>
    cases cs with
    | nil => rw [tokensNil] at split; cases split
    | cons c r =>
      obtain ⟨w, later, rfl, found⟩ := firstTakes c r
      rw [tokensCons offset found, List.cons_append, List.cons.injEq] at split
      obtain ⟨rfl, split⟩ := split
      have text := textOfTokens (offset + Text.byteLength (c :: w)) later
      have inside : ';' ∈ later := by
        rw [← text, split, textOf, List.flatMap_append]
        exact List.mem_append_right _ more
      have whole : textOf (⟨(first c (w ++ later)).1, c :: w, offset⟩ :: body) = c :: w ++ textOf body := rfl
      have tail : '\n' ∉ w ++ later := fun member => unbroken (List.mem_cons_of_mem _ member)
      rw [whole, Quoting.afterAppend, outsideBehind tail found (valid _ List.mem_cons_self) inside]
      exact ih (fun member => tail (List.mem_append_right _ member)) split fun t member => valid t (by simp [member])

theorem openOfInvalid {c : Char} {w rest e : List Char} (whole : e ++ [';'] = c :: (w ++ rest))
    (unbroken : '\n' ∉ w ++ rest) (found : first c (w ++ rest) = (.invalid, w.length + 1)) :
    ¬ IsTerminated (c :: (w ++ rest)) ∧ outside.after e ≠ outside := by
  obtain rfl : c = '"' := charOfMark (r := w ++ rest) (by rw [found]; rfl)
  refine ⟨fun ended => ended.valid ?_, ?_⟩
  · rw [tokens, tokensCons 0 found]
    exact List.mem_cons_self
  · rcases quoteAhead unbroken with ⟨u, v, same, token, -⟩ | ⟨opened, -⟩
    · rw [same, token] at found
      cases found
    · rw [← whole] at opened
      exact Quoting.afterOpen opened

theorem openOfLast {c : Char} {e : List Char} {kind : TokenKind} (unbroken : '\n' ∉ e ++ [';'])
    (found : first c (e ++ [';']) = (kind, (e ++ [';']).length + 1)) (valid : kind ≠ .invalid) :
    ¬ IsTerminated (c :: (e ++ [';'])) ∧ outside.after (c :: e) ≠ outside := by
  have found : first c (e ++ [';'] ++ []) = (kind, (e ++ [';']).length + 1) := by rwa [List.append_nil]
  constructor
  · intro ended
    have kinds := ended.ends
    rw [← List.append_nil (e ++ [';']), tokens, tokensCons 0 found, tokensNil] at kinds
    have semicolon : kind = .semicolon := by simpa using kinds
    obtain rfl : c = ';' := charOfMark (r := e ++ [';'] ++ []) (by rw [found, semicolon]; rfl)
    have one : first ';' (e ++ [';'] ++ []) = (.semicolon, 1) := rfl
    rw [one] at found
    simp at found
  · by_cases comment : c = '%'
    · subst comment
      simp [Quoting.step, Quoting.afterComment]
    by_cases string : c = '"'
    · subst string
      obtain ⟨u, ends, -, -⟩ := stringTaken (p := ';') (by simpa using unbroken) found valid (by simp) (by decide)
      simpa using congrArg List.getLast? ends
    · exact absurd (by simp) (breakOutside isBreakSemicolon (by decide) comment string found)

theorem terminatedIff {e : List Char} (unbroken : '\n' ∉ e) :
    IsTerminated (e ++ [';']) ↔ outside.after e = outside := by
  generalize whole : e ++ [';'] = cs
  -- By the tokens of the whole text, which the text in front of the semicolon follows as long as none
  -- of them reaches the semicolon.
  induction cs using byTokens generalizing e with
  | nil => simp at whole
  | token c w rest kind found ih =>
    have single : '\n' ∉ w ++ rest := by
      have all : '\n' ∉ e ++ [';'] := by simp [unbroken]
      rw [whole] at all
      exact fun member => all (List.mem_cons_of_mem c member)
    by_cases invalid : kind = .invalid
    · subst invalid
      obtain ⟨endless, opened⟩ := openOfInvalid whole single found
      exact iff_of_false endless opened
    cases e with
    | nil =>
      obtain ⟨rfl, nothing⟩ := List.cons.inj whole
      obtain ⟨rfl, rfl⟩ := List.append_eq_nil_iff.mp nothing.symm
      have one : tokens [';'] = [⟨.semicolon, [';'], 0⟩] := by
        rw [tokens, tokensOfMark rfl, tokensNil]
      refine iff_of_true ⟨?_, ?_⟩ rfl
      · simp [one]
      · simp [one]
    | cons d e =>
      obtain ⟨rfl, behind⟩ := List.cons.inj whole
      have behind : e ++ [';'] = w ++ rest := behind
      rw [List.mem_cons, not_or] at unbroken
      rcases List.eq_nil_or_concat rest with rfl | ⟨v, last, rfl⟩
      · rw [List.append_nil] at behind single found ⊢
        subst behind
        obtain ⟨endless, opened⟩ := openOfLast single found invalid
        exact iff_of_false endless opened
      · rw [List.concat_eq_append] at found behind single ih ⊢
        rw [← List.append_assoc] at behind
        obtain ⟨rfl, same⟩ := List.append_inj' behind rfl
        obtain rfl : last = ';' := by simpa using same.symm
        rw [terminatedBehind found invalid (by simp), ← List.cons_append, Quoting.afterAppend,
          outsideBehind single found invalid (by simp)]
        exact ih (fun member => unbroken.2 (by simp [member])) rfl

end ConstraintDesk.Line
