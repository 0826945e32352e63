import ConstraintDesk.Proofs.Line.Alike
import ConstraintDesk.Proofs.Line.Expressions
import ConstraintDesk.Proofs.Line.Identifiers

/-! Line feeds in a text that is read as one statement. A line feed outside of strings is a token of its
own, which no statement has. One inside of a string belongs to the string, and a space in its place makes
no difference to how the text is cut up. -/
namespace ConstraintDesk

namespace Line

/-- Every line feed of a text stands in one of its strings. -/
def FeedsQuoted (cs : List Char) : Prop := ∀ t ∈ tokens cs, '\n' ∈ t.text → t.kind = .string

def flat (cs : List Char) : List Char := cs.map fun c => if c = '\n' then ' ' else c

def Token.flat (t : Token) : Token := { t with text := Line.flat t.text }

theorem flatAppend (front back : List Char) : flat (front ++ back) = flat front ++ flat back := List.map_append

theorem flatOther {c : Char} (other : c ≠ '\n') (r : List Char) : flat (c :: r) = c :: flat r := by
  simp [flat, other]

theorem flatFeed (r : List Char) : flat ('\n' :: r) = ' ' :: flat r := by simp [flat]

theorem flatUnbroken {cs : List Char} (unbroken : '\n' ∉ cs) : flat cs = cs := by
  refine (List.map_congr_left fun c inside => ?_).trans (List.map_id cs)
  exact if_neg (ne_of_mem_of_not_mem inside unbroken)

theorem flatLength (cs : List Char) : (flat cs).length = cs.length := List.length_map _

theorem byteLengthFlat (cs : List Char) : Text.byteLength (flat cs) = Text.byteLength cs := by
  have size (c : Char) : (if c = '\n' then ' ' else c).utf8Size = c.utf8Size := by
    split
    · next feed => rw [feed]; rfl
    · rfl
  rw [Text.byteLength, flat, List.map_map]
  exact congrArg List.sum (List.map_congr_left fun c _ => size c)

theorem feedsQuotedIff {cs : List Char} (offset : Nat) :
    FeedsQuoted cs ↔ ∀ t ∈ tokensFrom offset cs, '\n' ∈ t.text → t.kind = .string := by
  have lexemes (offset : Nat) : (∀ t ∈ tokensFrom offset cs, '\n' ∈ t.text → t.kind = .string)
      ↔ ∀ l ∈ (tokensFrom offset cs).map Token.lexeme, '\n' ∈ l.2 → l.1 = .string := by
    simp [Token.lexeme]
  rw [FeedsQuoted, tokens, lexemes, lexemes, lexemesOfTokens, lexemesOfTokens]

variable {c : Char} {w rest : List Char} {kind : TokenKind}

theorem feedsQuotedCons (found : first c (w ++ rest) = (kind, w.length + 1)) :
    FeedsQuoted (c :: (w ++ rest)) ↔ ('\n' ∈ c :: w → kind = .string) ∧ FeedsQuoted rest := by
  rw [feedsQuotedIff 0, tokensCons 0 found, List.forall_mem_cons, ← feedsQuotedIff]

theorem FeedsQuoted.head {cs : List Char} (quoted : FeedsQuoted cs) : cs.head? ≠ some '\n' := by
  intro head
  obtain ⟨r, rfl⟩ := List.head?_eq_some_iff.mp head
  have feed : first '\n' ([] ++ r) = (.newline, ([] : List Char).length + 1) := rfl
  exact absurd (((feedsQuotedCons feed).mp quoted).1 List.mem_cons_self) (by decide)

theorem FeedsQuoted.headFlat {cs : List Char} (quoted : FeedsQuoted cs) : (flat cs).head? = cs.head? := by
  cases cs with
  | nil => rfl
  | cons c r => rw [flatOther fun feed => quoted.head (by rw [feed]; rfl), List.head?_cons, List.head?_cons]

theorem longerClosed {body : Nat × Bool} {k n : Nat} (closed : stringBody.longer k body = (n, true)) :
    ∃ m, body = (m, true) ∧ m + k = n := by
  obtain ⟨m, ended⟩ := body
  obtain ⟨size, rfl⟩ := Prod.mk.inj closed
  exact ⟨m, rfl, size⟩

theorem stringBodyFlat {r : List Char} {n : Nat} (closed : stringBody r = (n, true)) :
    stringBody (flat r) = (n, true) := by
  fun_induction stringBody r generalizing n with
  | case1 => cases closed
  | case2 => cases closed
  | case3 c r solid ih =>
    obtain ⟨m, body, rfl⟩ := longerClosed closed
    rw [flatOther (by decide), flatOther solid]
    simp [stringBody, solid, ih body, stringBody.longer]
  | case4 r pair =>
    rw [flatOther (by decide), ← closed]
    simp [stringBody]
  | case5 => cases closed
  | case6 c r pair quote escape ih =>
    obtain ⟨m, body, rfl⟩ := longerClosed closed
    by_cases feed : c = '\n'
    · rw [feed, flatFeed]
      simp [stringBody, ih body, stringBody.longer]
    · rw [flatOther feed]
      simp [stringBody, quote, escape, ih body, stringBody.longer]

theorem isBreakFeed : IsBreak '\n' := ⟨by decide, by decide, by decide, by decide⟩

theorem breaksFlat {b : List Char} (feed : ∀ c, b.head? = some c → c = '\n') : Breaks b ∧ Breaks (flat b) := by
  cases b with
  | nil => exact ⟨breaksNil, breaksNil⟩
  | cons c r =>
    obtain rfl := feed c rfl
    rw [flatFeed]
    exact ⟨isBreakFeed.breaks r, isBreakSpace.breaks _⟩

theorem firstOfFlat (space : isSpace c = false) (comment : c ≠ '%') (string : c ≠ '"') (r : List Char) :
    first c (flat r) = first c r := by
  have parts : r = r.takeWhile (· ≠ '\n') ++ r.dropWhile (· ≠ '\n') := List.takeWhile_append_dropWhile.symm
  have unbroken : '\n' ∉ r.takeWhile (· ≠ '\n') := fun inside => by simpa using List.mem_takeWhile_imp inside
  have feed (c : Char) (head : (r.dropWhile (· ≠ '\n')).head? = some c) : c = '\n' := by
    have stopped := List.head?_dropWhile_not (fun c : Char => decide (c ≠ '\n')) r
    rw [head] at stopped
    simpa using stopped
  obtain ⟨before, after⟩ := breaksFlat feed
  rw [parts, flatAppend, flatUnbroken unbroken, firstAhead after space comment string,
    firstAhead before space comment string]

theorem firstFlat (found : first c (w ++ rest) = (kind, w.length + 1)) (inside : '\n' ∈ c :: w → kind = .string)
    (behind : FeedsQuoted rest) : c ≠ '\n' ∧ first c (flat w ++ flat rest) = (kind, w.length + 1) := by
  have solid : c ≠ '\n' := by
    rintro rfl
    have feed : first '\n' (w ++ rest) = (.newline, 1) := rfl
    rw [feed] at found
    exact absurd ((congrArg Prod.fst found).trans (inside List.mem_cons_self)) (by decide)
  have single (other : kind ≠ .string) : flat w = w :=
    flatUnbroken fun member => other (inside (List.mem_cons_of_mem _ member))
  refine ⟨solid, ?_⟩
  by_cases space : isSpace c = true
  · obtain ⟨rfl, blank, stops⟩ := (spaceRun space).mp found
    rw [single (by decide)]
    exact (spaceRun space).mpr ⟨rfl, blank, fun d head => stops d (behind.headFlat ▸ head)⟩
  rw [Bool.not_eq_true] at space
  by_cases comment : c = '%'
  · subst comment
    obtain ⟨rfl, clean, stops⟩ := commentRun.mp found
    rw [single (by decide)]
    exact commentRun.mpr ⟨rfl, clean, fun d head => stops d (behind.headFlat ▸ head)⟩
  by_cases string : c = '"'
  · subst string
    cases quoteToken found with
    | @closed u ends body =>
      have whole : flat w ++ flat rest = flat (u ++ '"' :: rest) := by
        rw [ends, ← flatAppend, List.append_assoc, List.singleton_append]
      have token (x : List Char) : first '"' x = quote x := rfl
      rw [whole, token, quote, stringBodyFlat (body rest), ends, List.length_append]
      rfl
    | opened stops body =>
      have last : StopsBody (flat rest) := by
        cases stops with
        | ended => exact .ended
        | escape => exact .escape
        | broken r =>
          have escape : first '\\' ([] ++ '\n' :: r) = (.symbol, ([] : List Char).length + 1) := rfl
          exact absurd rfl ((feedsQuotedCons escape).mp behind).2.head
      rw [single (by split <;> decide), firstOfOpen (body _ last)]
  · rw [← flatAppend, firstOfFlat space comment string, found]

theorem tokensFlat {cs : List Char} (quoted : FeedsQuoted cs) (offset : Nat) :
    tokensFrom offset (flat cs) = (tokensFrom offset cs).map Token.flat := by
  induction cs using byTokens generalizing offset with
  | nil => exact (tokensNil offset).trans (by rw [tokensNil]; rfl)
  | token c w rest kind found ih =>
    obtain ⟨inside, behind⟩ := (feedsQuotedCons found).mp quoted
    obtain ⟨solid, same⟩ := firstFlat found inside behind
    have size : Text.byteLength (c :: flat w) = Text.byteLength (c :: w) := by
      rw [← byteLengthFlat (c :: w), flatOther solid]
    rw [flatOther solid, flatAppend, tokensCons offset (by rw [same, flatLength]), tokensCons offset found, size,
      ih behind, List.map_cons, Token.flat, flatOther solid]

theorem alikeFlat {t : Token} (quoted : '\n' ∈ t.text → t.kind = .string) : Alike t t.flat := by
  refine ⟨rfl, rfl, ?_, fun other => flatUnbroken fun inside => other (quoted inside)⟩
  rw [Token.finish, Token.finish, Token.flat, byteLengthFlat]

theorem allAlikeFlat {cs : List Char} (quoted : FeedsQuoted cs) : AllAlike (tokens cs) (tokens (flat cs)) := by
  rw [tokens, tokens, tokensFlat quoted]
  refine List.forall₂_map_right_iff.mpr (List.forall₂_same.mpr fun t member => ?_)
  exact alikeFlat (quoted t member)

def Clean (ts : List Token) : Prop := ∀ t ∈ ts, isStray t = false

theorem Clean.nil : Clean [] := fun _ inside => by cases inside

theorem Clean.cons {t : Token} {ts : List Token} {k : TokenKind} (kind : t.kind = k)
    (plain : (decide (k = .newline) || decide (k = .invalid)) = false) (others : Clean ts) : Clean (t :: ts) :=
  List.forall_mem_cons.mpr ⟨by rw [isStray, kind, plain], others⟩

theorem Clean.append {front back : List Token} (ahead : Clean front) (behind : Clean back) : Clean (front ++ back) :=
  List.forall_mem_append.mpr ⟨ahead, behind⟩

variable {body : List Token}

theorem IsUnsigned.clean {negative : Bool} {t : Token} {l : Literal} (h : IsUnsigned negative t l) : Clean [t] := by
  cases h with
  | int kind | float kind => exact .cons kind rfl .nil

theorem IsNumber.clean {l : Literal} (h : IsNumber body l) : Clean body := by
  cases h with
  | plain value => exact value.clean
  | negated sign value => exact .cons sign rfl value.clean

theorem IsLiteral.clean {l : Literal} (h : IsLiteral body l) : Clean body := by
  cases h with
  | true kind | false kind => exact .cons kind rfl .nil
  | number value => exact value.clean

theorem cleanOfDomain {t : Token} {d : Domain} {ts : List Token} (kind : t.kind = domainKind d) (others : Clean ts) :
    Clean (t :: ts) := by
  cases d <;> exact .cons kind rfl others

theorem IsType.clean {d : Domain} {range : Option Bounds} (h : IsType body d range) : Clean body := by
  cases h with
  | domain kind => exact cleanOfDomain kind .nil
  | range min kind max => exact min.clean.append (.cons kind rfl max.clean)

theorem IsId.clean {terminator : TokenKind} {id : String} (h : IsId terminator body id) : Clean body :=
  fun t inside => (h.run.parts t inside).stray

variable {cs : List Char}

theorem IsExpression.clean {e : String} (h : IsExpression cs body e) : Clean body := by
  cases h with
  | @ended first semicolon body begins clean kind =>
    have ahead : Clean (first :: body) := clean
    exact ahead.append (.cons kind rfl .nil)

theorem IsStatement.clean {s : Statement} (h : IsStatement cs body s) : Clean body := by
  cases h with
  | parameter h =>
    cases h with
    | declared domain behindType named behindName value fits ends =>
      have last := value.clean.append (.cons ends rfl .nil)
      exact cleanOfDomain domain (.cons behindType rfl (named.clean.append (.cons behindName rfl last)))
  | unknown h =>
    cases h with
    | declared word typed behindType named ends =>
      have last := named.clean.append (.cons ends rfl .nil)
      exact .cons word rfl (typed.clean.append (.cons behindType rfl last))
  | constraint h =>
    cases h with
    | stated word named behindName states =>
      exact .cons word rfl (named.clean.append (.cons behindName rfl states.clean))
  | goal h =>
    cases h with
    | satisfy word directive ends => exact .cons word rfl (.cons directive rfl (.cons ends rfl .nil))
    | minimize word directive states | maximize word directive states =>
      exact .cons word rfl (.cons directive rfl states.clean)

theorem kindOfFeed (found : first c (w ++ rest) = (kind, w.length + 1)) (feed : '\n' ∈ c :: w) :
    kind = .newline ∨ kind = .string ∨ kind = .invalid := by
  by_cases space : isSpace c = true
  · exact absurd (spacesOfFirst space found _ feed) (by decide)
  rw [Bool.not_eq_true] at space
  by_cases comment : c = '%'
  · subst comment
    rcases List.mem_cons.mp feed with same | later
    · exact absurd same (by decide)
    · exact absurd rfl ((commentRun.mp found).2.1 _ later)
  by_cases string : c = '"'
  · subst string
    cases quoteToken found with
    | closed => exact .inr (.inl rfl)
    | opened =>
      cases w with
      | nil => simp at feed
      | cons d w => exact .inr (.inr rfl)
  · rcases List.mem_cons.mp feed with rfl | later
    · have newline : first '\n' (w ++ rest) = (.newline, 1) := rfl
      rw [newline] at found
      exact .inl (congrArg Prod.fst found).symm
    · exact absurd later (breakOutside isBreakFeed (by decide) comment string found)

theorem quotedOfStatement {s : Statement} (derived : IsStatement cs (meaning (tokens cs)) s) : FeedsQuoted cs := by
  intro t member feed
  obtain ⟨front, c, w, rest, -, found, text⟩ := tokenMember member
  have kinds := kindOfFeed found (text ▸ feed)
  rcases triviaOrMeaning member with trivia | inside
  · rcases kinds with kind | kind | kind <;> simp [kind, TokenKind.isTrivia] at trivia
  · have clean := derived.clean t inside
    rcases kinds with kind | kind | kind
    · simp [isStray, kind] at clean
    · exact kind
    · simp [isStray, kind] at clean

theorem readOverFeeds (cs : List Char) :
    (∃ s, parse cs = .ok s) ↔ FeedsQuoted cs ∧ ∃ s, parse (flat cs) = .ok s := by
  have reads (cs : List Char) : (∃ s, parse cs = .ok s) ↔ ∃ s, IsStatement cs (meaning (tokens cs)) s := by
    simp only [parseOk, Parser.statementDerived (List.suffix_refl _)]
  rw [reads, reads]
  constructor
  · rintro ⟨s, derived⟩
    have quoted := quotedOfStatement derived
    exact ⟨quoted, derived.alike (allAlikeFlat quoted).meaning (flat cs)⟩
  · rintro ⟨quoted, s, derived⟩
    exact derived.alike (allAlikeFlat quoted).symm.meaning cs

end Line

namespace Statement

theorem feedsOfParameter (p : Parameter) : '\n' ∈ (parameters [p]).text ↔ '\n' ∈ p.id.toList := by
  rw [textOfParameter]
  refine ⟨fun feed => ?_, fun feed => ?_⟩
  · by_contra unbroken
    exact (Parameter.isLine unbroken).unbroken feed
  · exact List.mem_append_left _ (List.mem_append_left _ (List.mem_append_left _ (List.mem_append_right _ feed)))

theorem feedsOfUnknown (v : Variable) : '\n' ∈ (unknowns [v]).text ↔ '\n' ∈ v.id.toList := by
  rw [textOfUnknown]
  refine ⟨fun feed => ?_, fun feed => ?_⟩
  · by_contra unbroken
    exact (Variable.isLine unbroken).unbroken feed
  · exact List.mem_append_left _ (List.mem_append_right _ feed)

theorem feedsOfConstraint (c : Constraint) : '\n' ∈ (constraints [c]).text ↔ '\n' ∈ c.id.toList := by
  rw [textOfConstraint]
  refine ⟨fun feed => ?_, fun feed => ?_⟩
  · by_contra unbroken
    exact (Constraint.isLine unbroken).unbroken feed
  · exact List.mem_append_left _ (List.mem_append_left _ (List.mem_append_left _ (List.mem_append_right _ feed)))

theorem feedsOfGoal (g : Goal) : '\n' ∈ (Statement.goal g).text ↔ '\n' ∈ g.kind.name.toList := by
  rw [textOfGoal]
  refine iff_of_false g.isLine.unbroken ?_
  cases g.kind <;> decide

end Statement

theorem Line.IsStatement.feeds {cs : List Char} {body : List Line.Token} {s : Statement}
    (h : Line.IsStatement cs body s) : '\n' ∈ s.text ↔ ∃ id, s.id? = some id ∧ '\n' ∈ id.toList := by
  cases h with
  | @parameter p => simpa [Statement.id?] using Statement.feedsOfParameter p
  | @unknown v => simpa [Statement.id?] using Statement.feedsOfUnknown v
  | @constraint c => simpa [Statement.id?] using Statement.feedsOfConstraint c
  | @goal g => simpa [Statement.id?] using Statement.feedsOfGoal g

theorem feedsOnlyInStrings (cs : List Char) :
    ((∃ s, Line.parse cs = .ok s) ↔ Line.FeedsQuoted cs ∧ ∃ s, Line.parse (Line.flat cs) = .ok s)
      ∧ ∀ s, Line.parse cs = .ok s → ('\n' ∈ s.text ↔ ∃ id, s.id? = some id ∧ '\n' ∈ id.toList) := by
  refine ⟨Line.readOverFeeds cs, fun s read => ?_⟩
  rw [Line.parseOk, Line.Parser.statementDerived (List.suffix_refl _)] at read
  exact read.feeds

theorem stringOverTwoLines : '\n' ∈ "constraint c: x = \"a\nb\";".toList
    ∧ Line.FeedsQuoted "constraint c: x = \"a\nb\";".toList
    ∧ '\n' ∉ (Statement.constraints [⟨"c", "x = \"a\nb\""⟩]).text := by
  obtain ⟨reads, feeds⟩ := feedsOnlyInStrings "constraint c: x = \"a\nb\";".toList
  have read : Line.parse "constraint c: x = \"a\nb\";".toList = .ok (.constraints [⟨"c", "x = \"a\nb\""⟩]) := by
    decide +kernel
  refine ⟨by decide, (reads.mp ⟨_, read⟩).1, fun feed => ?_⟩
  obtain ⟨id, same, inside⟩ := (feeds _ read).mp feed
  cases same
  exact absurd inside (by decide)

theorem idOverTwoLines : ∃ s, Line.parse "int: \"a\nb\" = 3;".toList = .ok s
    ∧ '\n' ∈ "int: \"a\nb\" = 3;".toList ∧ '\n' ∈ s.text :=
  ⟨.parameters [⟨"\"a\nb\"", .int, .int 3⟩], by decide +kernel, by decide, by decide +kernel⟩

end ConstraintDesk
