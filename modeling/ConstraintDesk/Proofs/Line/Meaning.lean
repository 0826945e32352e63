import ConstraintDesk.Proofs.Line.Failures
import ConstraintDesk.Proofs.Text.Columns

/-! What the parsers make of the tokens that mean something. White space and comments only set the other
tokens apart, so each parser has a relation between the tokens that mean something, what it reads, and
those that are left; the relation of a bind is the composition. -/
namespace ConstraintDesk.Line

def meaning (ts : List Token) : List Token := ts.filter (!·.kind.isTrivia)

theorem meaningSignificant (ts : List Token) : meaning (significant ts) = meaning ts := Parser.filterSignificant ts

theorem meaningCons {ts rest : List Token} {t : Token} (ahead : significant ts = t :: rest) :
    meaning ts = t :: meaning rest := by
  have head : (significant ts).head? = some t := by rw [ahead, List.head?_cons]
  have solid := Parser.significantHead head
  rw [← meaningSignificant, ahead, meaning, List.filter_cons_of_pos (by simp [solid])]
  rfl

theorem meaningNil {ts : List Token} : meaning ts = [] ↔ significant ts = [] := by
  constructor
  · intro empty
    cases ahead : significant ts with
    | nil => rfl
    | cons t rest => simp [meaningCons ahead] at empty
  · intro empty
    rw [← meaningSignificant, empty]
    rfl

theorem significantOfMeaning {ts behind : List Token} {t : Token} (same : meaning ts = t :: behind) :
    ∃ rest, significant ts = t :: rest ∧ meaning rest = behind := by
  cases ahead : significant ts with
  | nil => simp [meaningNil.mpr ahead] at same
  | cons a rest =>
    rw [meaningCons ahead] at same
    cases same
    exact ⟨rest, rfl, rfl⟩

theorem meaningSplit {ts front behind : List Token} {t : Token} (same : meaning ts = front ++ t :: behind) :
    ∃ before rest, ts = before ++ t :: rest ∧ meaning before = front ∧ meaning rest = behind := by
  obtain ⟨before, after, rfl, ahead, later⟩ := List.filter_eq_append_iff.mp same
  obtain ⟨gap, rest, rfl, trivia, -, left⟩ := List.filter_eq_cons_iff.mp later
  have empty : meaning gap = [] := List.filter_eq_nil_iff.mpr trivia
  refine ⟨before ++ gap, rest, by simp, ?_, left⟩
  rw [meaning, List.filter_append, ahead, ← meaning, empty, List.append_nil]

theorem meaningHead (ts : List Token) : (significant ts).head? = (meaning ts).head? := by
  cases ahead : significant ts with
  | nil => rw [meaningNil.mpr ahead]
  | cons t rest => rw [meaningCons ahead]; rfl

theorem meaningTail (ts : List Token) : meaning (significant ts).tail = (meaning ts).tail := by
  cases ahead : significant ts with
  | nil => rw [meaningNil.mpr ahead]; rfl
  | cons t rest => rw [meaningCons ahead]; rfl

theorem triviaOrMeaning {ts : List Token} {t : Token} (member : t ∈ ts) : t.kind.isTrivia = true ∨ t ∈ meaning ts := by
  cases trivia : t.kind.isTrivia with
  | true => exact .inl rfl
  | false => exact .inr (List.mem_filter.mpr ⟨member, by simp [trivia]⟩)

theorem memberOfMeaning {ts : List Token} {t : Token} (member : t ∈ meaning ts) : t ∈ ts :=
  (List.mem_filter.mp member).1

structure Means (cs : List Char) {α : Type} (p : Parser α) (reads : List Token → α → List Token → Prop) : Prop where
  leaves : ∀ {ts a rest}, p ts = .ok (a, rest) → rest <:+ ts
  agrees : ∀ {ts}, ts <:+ tokens cs → ∀ a behind,
    (∃ rest, p ts = .ok (a, rest) ∧ meaning rest = behind) ↔ reads (meaning ts) a behind

namespace Means

variable {cs : List Char} {α β : Type} {p : Parser α} {f : α → Parser β}
  {first : List Token → α → List Token → Prop} {second : α → List Token → β → List Token → Prop}

theorem congr {other : List Token → α → List Token → Prop} (h : Means cs p first)
    (same : ∀ ts, (∀ t ∈ ts, t ∈ tokens cs) → ∀ a behind, first ts a behind ↔ other ts a behind) : Means cs p other := by
  refine ⟨h.leaves, fun {ts} inside a behind => (h.agrees inside a behind).trans (same _ (fun t member => ?_) a behind)⟩
  exact inside.subset (memberOfMeaning member)

theorem pure (a : α) : Means cs (pure a : Parser α) fun ts b behind => b = a ∧ behind = ts := by
  refine ⟨(Stays.pure a).leaves, fun {ts} _ b behind => ⟨?_, ?_⟩⟩
  · rintro ⟨rest, read, rfl⟩
    cases read
    exact ⟨rfl, rfl⟩
  · rintro ⟨rfl, rfl⟩
    exact ⟨ts, rfl, rfl⟩

theorem bind (h : Means cs p first) (k : ∀ a, Means cs (f a) (second a)) :
    Means cs (p >>= f) fun ts b behind => ∃ a mid, first ts a mid ∧ second a mid b behind := by
  have step (ts : List Token) : (p >>= f) ts = p ts >>= fun (a, rest) => f a rest := rfl
  constructor
  · intro ts b rest read
    rw [step] at read
    obtain ⟨⟨a, mid⟩, before, after⟩ := okOfBind read
    exact ((k a).leaves after).trans (h.leaves before)
  · intro ts inside b behind
    constructor
    · rintro ⟨rest, read, rfl⟩
      rw [step] at read
      obtain ⟨⟨a, mid⟩, before, after⟩ := okOfBind read
      -- What the first parser leaves are still tokens of the text, so the second one agrees on them.
      refine ⟨a, meaning mid, (h.agrees inside _ _).mp ⟨mid, before, rfl⟩, ?_⟩
      exact ((k a).agrees ((h.leaves before).trans inside) _ _).mp ⟨rest, after, rfl⟩
    · rintro ⟨a, mid, one, two⟩
      obtain ⟨left, before, rfl⟩ := (h.agrees inside a mid).mpr one
      obtain ⟨rest, after, same⟩ := ((k a).agrees ((h.leaves before).trans inside) b behind).mpr two
      exact ⟨rest, (bindOk before).trans after, same⟩

theorem peek {g : List Token → α} (second : α → List Token → β → List Token → Prop)
    (h : Means cs p fun ts a behind => a = g ts ∧ behind = ts) (k : ∀ a, Means cs (f a) (second a)) :
    Means cs (p >>= f) fun ts b behind => second (g ts) ts b behind := by
  refine (h.bind k).congr fun ts _ b behind => ⟨?_, fun two => ⟨_, _, ⟨rfl, rfl⟩, two⟩⟩
  rintro ⟨_, _, ⟨rfl, rfl⟩, two⟩
  exact two

theorem fails (failed : ∀ ts, ∃ e, p ts = .error e) : Means cs p fun _ _ _ => False := by
  have never (ts : List Token) (a : α) (rest : List Token) : p ts ≠ .ok (a, rest) := by
    obtain ⟨e, error⟩ := failed ts
    simp [error]
  refine ⟨fun read => absurd read (never _ _ _), fun _ a behind => ⟨?_, False.elim⟩⟩
  rintro ⟨rest, read, -⟩
  exact never _ _ _ read

theorem failHere (fault : Fault) : Means cs (Parser.failHere fault : Parser α) fun _ _ _ => False :=
  .fails fun _ => ⟨_, rfl⟩

theorem failAt (offset : Option Nat) (fault : Fault) :
    Means cs (Parser.failAt offset fault : Parser α) fun _ _ _ => False :=
  .fails fun _ => ⟨_, rfl⟩

end Means

namespace Parser

variable {cs : List Char}

theorem meansCurrent : Means cs current fun ts t behind => t = ts.head? ∧ behind = ts := by
  refine ⟨staysCurrent.leaves, fun {ts} _ t behind => ⟨?_, ?_⟩⟩
  · rintro ⟨rest, read, rfl⟩
    cases read
    exact ⟨meaningHead ts, rfl⟩
  · rintro ⟨rfl, rfl⟩
    exact ⟨ts, by rw [← meaningHead]; rfl, rfl⟩

theorem meansKind : Means cs kind fun ts k behind => k = ts.head?.map (·.kind) ∧ behind = ts :=
  .peek (fun t ts k behind => k = t.map (·.kind) ∧ behind = ts) meansCurrent fun _ => .pure _

theorem meansNextDomain :
    Means cs nextDomain fun ts d behind => d = ts.head?.bind (domainOf? ·.kind) ∧ behind = ts :=
  .peek (fun t ts d behind => d = t.bind (domainOf? ·.kind) ∧ behind = ts) meansCurrent fun _ => .pure _

theorem meansSkip : Means cs skip fun ts _ behind => behind = ts.tail := by
  refine ⟨staysSkip.leaves, fun {ts} _ _ behind => ⟨?_, ?_⟩⟩
  · rintro ⟨rest, read, rfl⟩
    cases read
    exact meaningTail ts
  · rintro rfl
    exact ⟨(significant ts).tail, rfl, meaningTail ts⟩

theorem meansExpect (kind : TokenKind) :
    Means cs (expect kind) fun ts _ behind => ∃ t, t.kind = kind ∧ ts = t :: behind := by
  unfold expect
  refine .congr (.peek (fun t ts _ behind => ∃ a, t = some a ∧ a.kind = kind ∧ behind = ts.tail) meansCurrent ?_) ?_
  · intro t
    cases t with
    | none => exact (Means.failAt _ _).congr (by simp)
    | some t =>
      simp only
      split
      · next same => exact meansSkip.congr (by simp [same])
      · next other => exact (Means.failHere _).congr (by simp [other])
  · intro ts _ _ behind
    cases ts <;> simp [eq_comm]

end Parser
end ConstraintDesk.Line
