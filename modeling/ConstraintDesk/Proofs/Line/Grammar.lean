import ConstraintDesk.Proofs.Line.Meaning

/-! The grammar of the parts of statements, on the tokens that mean something, and the parsers that read
exactly those parts. -/
namespace ConstraintDesk.Line

inductive IsUnsigned (negative : Bool) (t : Token) : Literal → Prop
  | int {i : Int64} (kind : t.kind = .integer)
      (value : i.toInt = if negative then -(Decimal.natOf t.text : ℤ) else Decimal.natOf t.text) :
      IsUnsigned negative t (.int i)
  | float {x : Binary64} (kind : t.kind = .decimal) (value : Decimal.magnitude? negative t.text = some x) :
      IsUnsigned negative t (.float x)

inductive IsNumber : List Token → Literal → Prop
  | plain {t : Token} {l : Literal} (value : IsUnsigned false t l) : IsNumber [t] l
  | negated {minus t : Token} {l : Literal} (sign : minus.kind = .minus) (value : IsUnsigned true t l) :
      IsNumber [minus, t] l

inductive IsLiteral : List Token → Literal → Prop
  | true {t : Token} (kind : t.kind = .trueWord) : IsLiteral [t] (.bool Bool.true)
  | false {t : Token} (kind : t.kind = .falseWord) : IsLiteral [t] (.bool Bool.false)
  | number {body : List Token} {l : Literal} (value : IsNumber body l) : IsLiteral body l

inductive IsType : List Token → Domain → Option Bounds → Prop
  | domain {t : Token} {d : Domain} (kind : t.kind = domainKind d) : IsType [t] d none
  | range {low high : List Token} {dots : Token} {a b : Literal} (min : IsNumber low a) (kind : dots.kind = .dotDot)
      (max : IsNumber high b) : IsType (low ++ dots :: high) (Parser.rangeDomain a b) (some ⟨a, b⟩)

structure IsId (terminator : TokenKind) (body : List Token) (id : String) : Prop where
  run : Parser.IsRun terminator body
  text : id = String.ofList (textOf body)

/-- Some tokens with a semicolon behind them. What they say is the text that they stand in, up to the
semicolon and without the blanks around it. -/
inductive IsExpression (cs : List Char) : List Token → String → Prop
  | ended {first semicolon : Token} {body : List Token} (begins : first.kind ≠ .semicolon)
      (clean : ∀ t ∈ first :: body, isStray t = false) (kind : semicolon.kind = .semicolon) :
      IsExpression cs (first :: (body ++ [semicolon]))
        (String.ofList (Text.trim (Text.between first.start semicolon.start cs)))

theorem IsNumber.begins {body : List Token} {l : Literal} (h : IsNumber body l) :
    ∃ t rest, body = t :: rest ∧ beginsNumber t.kind := by
  cases h with
  | negated sign => exact ⟨_, _, rfl, .inl sign⟩
  | plain value =>
    cases value with
    | int kind => exact ⟨_, _, rfl, .inr (.inl kind)⟩
    | float kind => exact ⟨_, _, rfl, .inr (.inr kind)⟩

namespace Parser

variable {cs : List Char}

theorem integerIff {negative : Bool} {ds : List Char} {i : Int64} : integer? negative ds = some i
    ↔ i.toInt = if negative then -(Decimal.natOf ds : ℤ) else Decimal.natOf ds := by
  have low : -2 ^ 63 ≤ i.toInt := i.le_toInt
  have high : i.toInt < 2 ^ 63 := i.toInt_lt
  unfold integer?
  simp only
  generalize (if negative then -(Decimal.natOf ds : ℤ) else Decimal.natOf ds) = value
  split
  · next inside =>
    simp only [Bool.and_eq_true, decide_eq_true_eq] at inside
    rw [Option.some.injEq]
    constructor
    · rintro rfl
      exact Int64.toInt_ofInt_of_le inside.1 inside.2
    · rintro rfl
      exact Int64.ofInt_toInt i
  · next outside =>
    simp only [Bool.and_eq_true, decide_eq_true_eq] at outside
    simp only [reduceCtorEq, false_iff]
    rintro rfl
    exact outside ⟨low, high⟩

theorem meansUnsigned (negative : Bool) :
    Means cs (unsigned negative) fun ts l behind => ∃ t, IsUnsigned negative t l ∧ ts = t :: behind := by
  unfold unsigned
  refine .congr (.peek (fun t ts l behind => ∃ a, t = some a ∧ behind = ts.tail
    ∧ ((a.kind = .integer ∧ ∃ i, integer? negative a.text = some i ∧ l = .int i)
      ∨ a.kind = .decimal ∧ l = .float (decimal negative a.text))) meansCurrent ?_) ?_
  · intro t
    cases t with
    | none => exact (Means.failHere _).congr (by simp)
    | some t =>
      simp only
      split
      · next kind =>
        cases read : integer? negative t.text with
        | some i => exact (meansSkip.bind fun _ => .pure _).congr (by simp [kind, read, and_comm])
        | none => exact (Means.failHere _).congr (by simp [kind, read])
      · next kind => exact (meansSkip.bind fun _ => .pure _).congr (by simp [kind, and_comm])
      · next integer decimal =>
        have other : t.kind ≠ .integer ∧ t.kind ≠ .decimal := ⟨integer, decimal⟩
        exact (Means.failHere _).congr (by simp [other])
  · intro ts inside l behind
    constructor
    · rintro ⟨t, head, rfl, read⟩
      obtain ⟨rest, rfl⟩ := List.head?_eq_some_iff.mp head
      rcases read with ⟨kind, i, value, rfl⟩ | ⟨kind, rfl⟩
      · exact ⟨t, .int kind (integerIff.mp value), rfl⟩
      · obtain ⟨x, value⟩ := magnitudeOfDecimal (inside t List.mem_cons_self) kind negative
        exact ⟨t, .float kind (by rw [decimal, value]; rfl), rfl⟩
    · rintro ⟨t, read, rfl⟩
      refine ⟨t, rfl, rfl, ?_⟩
      cases read with
      | int kind value => exact .inl ⟨kind, _, integerIff.mpr value, rfl⟩
      | float kind value => exact .inr ⟨kind, by rw [decimal, value]; rfl⟩

theorem meansNumber : Means cs Parser.number fun ts l behind => ∃ body, IsNumber body l ∧ ts = body ++ behind := by
  rw [numberEq]
  refine .congr (.peek (fun t ts l behind =>
    if t.any (·.kind = .minus) then ∃ a, IsUnsigned true a l ∧ ts.tail = a :: behind
    else ∃ a, IsUnsigned false a l ∧ ts = a :: behind) meansCurrent ?_) ?_
  · intro t
    simp only
    split
    · next negative =>
      rw [negative]
      exact (meansSkip.bind fun _ => meansUnsigned true).congr (by simp)
    · next plain =>
      rw [Bool.not_eq_true] at plain
      rw [plain]
      exact meansUnsigned false
  · intro ts _ l behind
    constructor
    · intro read
      cases ts with
      | nil => simp at read
      | cons m rest =>
        split at read
        · next minus =>
          obtain ⟨t, value, rfl⟩ := read
          exact ⟨[m, t], .negated (by simpa using minus) value, rfl⟩
        · obtain ⟨t, value, same⟩ := read
          exact ⟨[t], .plain value, same⟩
    · rintro ⟨body, number, rfl⟩
      cases number with
      | @plain t l value =>
        have unmarked : t.kind ≠ .minus := by cases value with | int kind | float kind => simp [kind]
        simpa [unmarked] using value
      | negated sign value => simpa [sign] using value

theorem consOfHeadKind {ts : List Token} {k : TokenKind} (head : ts.head?.map (·.kind) = some k) :
    ∃ t rest, ts = t :: rest ∧ t.kind = k := by
  cases ts with
  | nil => cases head
  | cons t rest => exact ⟨t, rest, rfl, Option.some.inj head⟩

theorem meansLiteral : Means cs literal fun ts l behind => ∃ body, IsLiteral body l ∧ ts = body ++ behind := by
  unfold literal
  refine .congr (.peek (fun k ts l behind =>
    if k = some .trueWord then l = .bool true ∧ behind = ts.tail
    else if k = some .falseWord then l = .bool false ∧ behind = ts.tail
    else ∃ body, IsNumber body l ∧ ts = body ++ behind) meansKind ?_) ?_
  · intro k
    split
    · exact (meansSkip.bind fun _ => .pure _).congr (by simp [and_comm])
    · exact (meansSkip.bind fun _ => .pure _).congr (by simp [and_comm])
    · next notTrue notFalse =>
      exact meansNumber.congr (by simp [show k ≠ some .trueWord from notTrue, show k ≠ some .falseWord from notFalse])
  · intro ts _ l behind
    constructor
    · intro read
      split at read
      · next word =>
        obtain ⟨t, rest, rfl, kind⟩ := consOfHeadKind word
        obtain ⟨rfl, rfl⟩ := read
        exact ⟨[t], .true kind, rfl⟩
      split at read
      · next word =>
        obtain ⟨t, rest, rfl, kind⟩ := consOfHeadKind word
        obtain ⟨rfl, rfl⟩ := read
        exact ⟨[t], .false kind, rfl⟩
      · obtain ⟨body, number, same⟩ := read
        exact ⟨body, .number number, same⟩
    · rintro ⟨body, literal, rfl⟩
      cases literal with
      | true kind => simp [kind]
      | false kind => simp [kind]
      | number number =>
        obtain ⟨t, rest, rfl, begins⟩ := number.begins
        rw [if_neg, if_neg]
        · exact ⟨t :: rest, number, rfl⟩
        · rcases begins with kind | kind | kind <;> simp [kind]
        · rcases begins with kind | kind | kind <;> simp [kind]

theorem widenIff {d : Domain} {l v : Literal} : widen? d l = some v ↔ l.fits d = true ∧ v = l.asWritten d := by
  cases l <;> cases d <;> simp [widen?, Literal.fits, Literal.asWritten, eq_comm]

theorem meansValue (d : Domain) : Means cs (value d) fun ts v behind =>
    ∃ body l, IsLiteral body l ∧ l.fits d = true ∧ v = l.asWritten d ∧ ts = body ++ behind := by
  refine ⟨(staysValue d).leaves, fun {ts} inside v behind => ?_⟩
  have literal := meansLiteral.agrees inside
  constructor
  · rintro ⟨rest, read, rfl⟩
    rw [valueEq] at read
    obtain ⟨⟨l, left⟩, before, after⟩ := okOfBind read
    obtain ⟨body, derived, same⟩ := (literal l _).mp ⟨left, before, rfl⟩
    simp only at after
    split at after
    · next wide =>
      cases after
      obtain ⟨fits, value⟩ := widenIff.mp wide
      exact ⟨body, l, derived, fits, value, same⟩
    · cases after
  · rintro ⟨body, l, derived, fits, value, same⟩
    obtain ⟨rest, read, left⟩ := (literal l behind).mpr ⟨body, derived, same⟩
    refine ⟨rest, ?_, left⟩
    rw [valueEq, read]
    simp only [bind, Except.bind, widenIff.mpr ⟨fits, value⟩]

theorem meaningBehind {terminator : TokenKind} (solid : terminator.isTrivia = false) (ts : List Token) :
    meaning (ts.dropWhile (·.kind ≠ terminator)) = (meaning ts).dropWhile (·.kind ≠ terminator) := by
  induction ts with
  | nil => rfl
  | cons t rest ih =>
    unfold meaning at ih ⊢
    by_cases last : t.kind = terminator
    · rw [List.dropWhile_cons_of_neg (by simp [last]), List.filter_cons_of_pos (by simp [last, solid]),
        List.dropWhile_cons_of_neg (by simp [last])]
    · rw [List.dropWhile_cons_of_pos (by simp [last]), ih]
      cases trivia : t.kind.isTrivia with
      | true => rw [List.filter_cons_of_neg (by simp [trivia])]
      | false => rw [List.filter_cons_of_pos (by simp [trivia]), List.dropWhile_cons_of_pos (by simp [last])]

theorem chainOfFaultless {body : List Token} (whole : idFailure? body = none) :
    body.IsChain (fun a b => a.finish = b.start) := by
  induction body with
  | nil => exact .nil
  | cons a body ih => exact List.isChain_cons.mpr ⟨(faultless whole).2, ih (faultlessTail whole)⟩

theorem meansIdentifier {terminator : TokenKind} (solid : terminator.isTrivia = false) :
    Means cs (identifier terminator) fun ts id behind =>
      ∃ name, IsId terminator name id ∧ behind.head?.map (·.kind) = some terminator ∧ ts = name ++ behind := by
  refine ⟨(staysIdentifier terminator).leaves, fun {ts} inside id behind => ⟨?_, ?_⟩⟩
  · rintro ⟨rest, read, rfl⟩
    obtain ⟨ended, ⟨first, later, found, clean⟩, whole, text, rfl⟩ := identifierOk read
    have parts : meaning ts = idBody terminator ts ++ meaning (ts.dropWhile (·.kind ≠ terminator)) := by
      rw [meaningBehind solid]
      exact List.takeWhile_append_dropWhile.symm
    have run : IsRun terminator (idBody terminator ts) :=
      ⟨by simp [found], idParts found clean whole, chainOfFaultless whole⟩
    refine ⟨_, ⟨run, text⟩, ?_, parts⟩
    cases left : meaning (ts.dropWhile (·.kind ≠ terminator)) with
    | nil =>
      rw [left, List.append_nil] at parts
      exact absurd (congrArg List.length parts.symm) ended
    | cons t rest =>
      have stopped := List.head?_dropWhile_not (fun a : Token => decide (a.kind ≠ terminator)) (meaning ts)
      rw [← meaningBehind solid, left] at stopped
      simpa using stopped
  · rintro ⟨name, ⟨run, rfl⟩, next, same⟩
    -- The id ends at the first terminator, and the run has none.
    obtain ⟨t, rest, rfl, last⟩ := consOfHeadKind next
    refine ⟨_, identifierOfRun run last same, ?_⟩
    rw [meaningBehind solid, same, List.dropWhile_append_of_pos fun a member => by simp [(run.parts a member).other]]
    simp [last]

theorem textBetween {first t : Token} {body rest : List Token} (inside : first :: (body ++ t :: rest) <:+ tokens cs) :
    Text.between first.start t.start cs = textOf (first :: body) := by
  obtain ⟨front, split⟩ := inside
  obtain ⟨tail, rfl, here⟩ := tokensSplit split.symm
  have begins := startOfCons here.symm
  have cut : tokensFrom _ tail = (first :: body) ++ t :: rest := here.symm
  obtain ⟨last, rfl, behind⟩ := tokensSplit cut
  have ends := startOfCons behind.symm
  rw [begins, ends, Nat.zero_add, Text.betweenOf]

theorem strayOfTrivia {t : Token} (trivia : t.kind.isTrivia = true) : isStray t = false := by
  unfold isStray
  cases kind : t.kind <;> simp_all [TokenKind.isTrivia]

theorem meansExpression : Means cs expression fun ts e behind =>
    ∃ body, IsExpression cs body e ∧ (∀ t ∈ behind, t.kind ≠ .semicolon) ∧ ts = body ++ behind := by
  refine ⟨staysExpression.leaves, fun {ts} inside e behind => ⟨?_, ?_⟩⟩
  · rintro ⟨rest, read, rfl⟩
    obtain ⟨first, body, semicolon, parts, begins, clean, last, absent, rfl⟩ := expressionOk.mp read
    have here : first :: (body ++ semicolon :: rest) <:+ tokens cs :=
      parts ▸ (List.dropWhile_suffix _).trans inside
    rw [← textBetween here]
    have meant : ∀ t ∈ first :: meaning body, isStray t = false := by
      intro t member
      rcases List.mem_cons.mp member with rfl | later
      · exact clean t List.mem_cons_self
      · exact clean t (List.mem_cons_of_mem _ (memberOfMeaning later))
    refine ⟨_, .ended begins meant last, fun t member => absent t (memberOfMeaning member), ?_⟩
    · rw [meaningCons parts, meaning, List.filter_append, List.filter_cons_of_pos (by simp [last, TokenKind.isTrivia])]
      simp [meaning]
  · rintro ⟨_, @⟨first, semicolon, body, begins, clean, last⟩, absent, same⟩
    rw [List.cons_append, List.append_assoc, List.singleton_append] at same
    obtain ⟨tail, ahead, later⟩ := significantOfMeaning same
    obtain ⟨between, rest, rfl, inner, left⟩ := meaningSplit later
    have here : first :: (between ++ semicolon :: rest) <:+ tokens cs :=
      ahead ▸ (List.dropWhile_suffix _).trans inside
    -- White space between the tokens is part of the text, and it is no stray token.
    refine ⟨rest, expressionOk.mpr ⟨first, between, semicolon, ahead, begins, fun t member => ?_, last,
      fun t member => ?_, by rw [textBetween here]⟩, left⟩
    · rcases List.mem_cons.mp member with rfl | later
      · exact clean t List.mem_cons_self
      rcases triviaOrMeaning later with trivia | meant
      · exact strayOfTrivia trivia
      · exact clean t (List.mem_cons_of_mem _ (inner ▸ meant))
    · rcases triviaOrMeaning member with trivia | meant
      · rintro kind
        simp [kind, TokenKind.isTrivia] at trivia
      · exact absent t (left ▸ meant)

theorem domainOfIff {k : TokenKind} {d : Domain} : domainOf? k = some d ↔ k = domainKind d := by
  cases k <;> cases d <;> simp [domainOf?, domainKind]

theorem meansDomain : Means cs domain fun ts d behind => ∃ t, t.kind = domainKind d ∧ ts = t :: behind := by
  unfold domain
  refine .congr (.peek (fun next ts d behind => next = some d ∧ behind = ts.tail) meansNextDomain ?_) ?_
  · intro next
    cases next with
    | none => exact (Means.failHere _).congr (by simp)
    | some d => exact (meansSkip.bind fun _ => .pure _).congr (by simp [eq_comm])
  · intro ts _ d behind
    cases ts with
    | nil => simp
    | cons t rest => simp [domainOfIff, eq_comm (a := rest)]

def type : Parser (Domain × Option Bounds) := do
  match ← nextDomain with
  | some d => do skip; return (d, none)
  | none => do
    let low ← number
    expect .dotDot
    let high ← number
    return (rangeDomain low high, some ⟨low, high⟩)

theorem meansType : Means cs type fun ts t behind => ∃ body, IsType body t.1 t.2 ∧ ts = body ++ behind := by
  unfold type
  refine .congr (.peek (fun next ts t behind => (∃ d, next = some d ∧ t = (d, none) ∧ behind = ts.tail)
    ∨ next = none ∧ ∃ low dots high a b, IsNumber low a ∧ dots.kind = .dotDot ∧ IsNumber high b
      ∧ t = (rangeDomain a b, some ⟨a, b⟩) ∧ ts = low ++ dots :: (high ++ behind)) meansNextDomain ?_) ?_
  · intro next
    cases next with
    | some d => exact (meansSkip.bind fun _ => .pure _).congr (by simp [and_comm])
    | none =>
      refine .congr (meansNumber.bind fun low => (meansExpect _).bind fun _ => meansNumber.bind fun high => .pure _) ?_
      intro ts _ t behind
      constructor
      · rintro ⟨a, _, ⟨low, min, rfl⟩, _, _, ⟨dots, kind, rfl⟩, b, _, ⟨high, max, rfl⟩, rfl, rfl⟩
        exact .inr ⟨rfl, low, dots, high, a, b, min, kind, max, rfl, rfl⟩
      · rintro (⟨d, same, -⟩ | ⟨-, low, dots, high, a, b, min, kind, max, rfl, rfl⟩)
        · cases same
        · exact ⟨a, _, ⟨low, min, rfl⟩, (), _, ⟨dots, kind, rfl⟩, b, _, ⟨high, max, rfl⟩, rfl, rfl⟩
  · intro ts _ t behind
    constructor
    · rintro (⟨d, head, rfl, rfl⟩ | ⟨-, low, dots, high, a, b, min, kind, max, rfl, rfl⟩)
      · obtain ⟨t, head, kind⟩ := Option.bind_eq_some_iff.mp head
        obtain ⟨rest, rfl⟩ := List.head?_eq_some_iff.mp head
        exact ⟨[t], .domain (domainOfIff.mp kind), rfl⟩
      · exact ⟨_, .range min kind max, by simp⟩
    · obtain ⟨d, range⟩ := t
      rintro ⟨body, typed, rfl⟩
      cases typed with
      | domain kind => exact .inl ⟨_, by simp [domainOfIff.mpr kind], rfl, rfl⟩
      | range min kind max =>
        refine .inr ⟨?_, _, _, _, _, _, min, kind, max, rfl, by simp⟩
        obtain ⟨t, rest, rfl, begins⟩ := min.begins
        rcases begins with kind | kind | kind <;> simp [kind, domainOf?]

end Parser
end ConstraintDesk.Line
