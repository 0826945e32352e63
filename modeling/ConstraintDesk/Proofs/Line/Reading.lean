import ConstraintDesk.Proofs.Line.Pieces

/-! What the parsers of a statement line make of the pieces it is put together from. A parser that reads
a piece leaves the tokens of the text behind it, so readings follow one another as the pieces do. -/
namespace ConstraintDesk.Line

theorem bindOk {α β : Type} {p : Parser α} {f : α → Parser β} {ts rest : List Token} {a : α}
    (h : p ts = .ok (a, rest)) : (p >>= f) ts = f a rest := by
  have step : (p >>= f) ts = p ts >>= fun (a, rest) => f a rest := rfl
  rw [step, h]
  rfl

def Reads {α : Type} (p : Parser α) (cs : List Char) (a : α) (rest : List Char) : Prop :=
  ∀ offset, ∃ behind, p (tokensFrom offset cs) = .ok (a, tokensFrom behind rest)

namespace Reads

variable {α β : Type} {p : Parser α} {a : α} {b : β} {cs mid rest : List Char}

theorem pure (a : α) (cs : List Char) : Reads (pure a) cs a cs := fun offset => ⟨offset, rfl⟩

theorem bind {f : α → Parser β} (h : Reads p cs a mid) (k : Reads (f a) mid b rest) :
    Reads (p >>= f) cs b rest := by
  intro offset
  obtain ⟨between, first⟩ := h offset
  obtain ⟨behind, second⟩ := k between
  exact ⟨behind, (bindOk first).trans second⟩

theorem leaves {left : List Char} {b : α} (h : Reads p cs a rest) (k : Reads p cs b left) : rest = left := by
  obtain ⟨behind, first⟩ := h 0
  obtain ⟨after, second⟩ := k 0
  have tokens := (Prod.mk.inj (Except.ok.inj (first.symm.trans second))).2
  have text := congrArg textOf tokens
  rwa [textOfTokens, textOfTokens] at text

end Reads

def Becomes {α : Type} (p q : Parser α) (cs mid : List Char) : Prop :=
  ∀ offset, ∃ behind, p (tokensFrom offset cs) = q (tokensFrom behind mid)

theorem Becomes.refl {α : Type} (p : Parser α) (cs : List Char) : Becomes p p cs cs := fun offset => ⟨offset, rfl⟩

theorem Becomes.reads {α : Type} {p q : Parser α} {cs mid rest : List Char} {a : α} (h : Becomes p q cs mid)
    (k : Reads q mid a rest) : Reads p cs a rest := by
  intro offset
  obtain ⟨between, same⟩ := h offset
  obtain ⟨behind, read⟩ := k between
  exact ⟨behind, same.trans read⟩

theorem Reads.becomes {α β : Type} {p : Parser α} {f : α → Parser β} {q : Parser β} {a : α}
    {cs mid rest : List Char} (h : Reads p cs a mid) (k : Becomes (f a) q mid rest) :
    Becomes (p >>= f) q cs rest := by
  intro offset
  obtain ⟨between, first⟩ := h offset
  obtain ⟨behind, same⟩ := k between
  exact ⟨behind, (bindOk first).trans same⟩

def Fails {α : Type} (p : Parser α) (cs : List Char) : Prop := ∀ offset, ∃ e, p (tokensFrom offset cs) = .error e

theorem Fails.bind {α β : Type} {p : Parser α} {cs : List Char} (h : Fails p cs) (f : α → Parser β) :
    Fails (p >>= f) cs := by
  intro offset
  obtain ⟨e, failed⟩ := h offset
  have step : (p >>= f) (tokensFrom offset cs) = p (tokensFrom offset cs) >>= fun (a, rest) => f a rest := rfl
  exact ⟨e, by rw [step, failed]; rfl⟩

theorem Reads.fails {α β : Type} {p : Parser α} {f : α → Parser β} {a : α} {cs mid : List Char}
    (h : Reads p cs a mid) (k : Fails (f a) mid) : Fails (p >>= f) cs := by
  intro offset
  obtain ⟨between, first⟩ := h offset
  obtain ⟨e, failed⟩ := k between
  exact ⟨e, (bindOk first).trans failed⟩

theorem Becomes.fails {α : Type} {p q : Parser α} {cs mid : List Char} (h : Becomes p q cs mid) (k : Fails q mid) :
    Fails p cs := by
  intro offset
  obtain ⟨between, same⟩ := h offset
  obtain ⟨e, failed⟩ := k between
  exact ⟨e, same.trans failed⟩

theorem failsHere {α : Type} (fault : Fault) (cs : List Char) : Fails (Parser.failHere fault : Parser α) cs :=
  fun _ => ⟨_, rfl⟩

theorem failsGet {α : Type} {f : List Token → Parser α} {cs : List Char} (h : ∀ ts, Fails (f ts) cs) :
    Fails (get >>= f) cs := fun offset => h (tokensFrom offset cs) offset

inductive Gap : List Char → Prop
  | none : Gap []
  | space : Gap [' ']

theorem significantDark {cs : List Char} (dark : StartsDark cs) (offset : Nat) :
    significant (tokensFrom offset cs) = tokensFrom offset cs := by
  cases cs with
  | nil => rw [tokensNil]; rfl
  | cons c r =>
    obtain ⟨w, rest, rfl, found⟩ := firstTakes c r
    rw [tokensCons offset found, significant, List.dropWhile_cons, if_neg]
    intro trivia
    obtain ⟨space, comment⟩ := dark c rfl
    rcases triviaOfFirst trivia with blank | percent
    · simp [space] at blank
    · exact comment percent

theorem tokensGap {gap cs : List Char} (h : Gap gap) (dark : StartsDark cs) (offset : Nat) :
    ∃ front start, (∀ a ∈ front, a.kind.isTrivia = true)
      ∧ tokensFrom offset (gap ++ cs) = front ++ tokensFrom start cs := by
  cases h with
  | none => exact ⟨[], offset, by simp, rfl⟩
  | space => exact ⟨[⟨.whitespace, [' '], offset⟩], offset + 1, by simp [TokenKind.isTrivia], tokensOfGap dark offset⟩

theorem significantGap {gap cs : List Char} (h : Gap gap) (dark : StartsDark cs) (offset : Nat) :
    ∃ behind, significant (tokensFrom offset (gap ++ cs)) = tokensFrom behind cs := by
  obtain ⟨front, start, trivia, tokens⟩ := tokensGap h dark offset
  refine ⟨start, ?_⟩
  rw [tokens, significant, List.dropWhile_append_of_pos trivia]
  exact significantDark dark start

theorem darkOfPlain {c : Char} (space : isSpace c = false) (comment : c ≠ '%') (r : List Char) :
    StartsDark (c :: r) := fun _ head => by cases head; exact ⟨space, comment⟩

structure IsPiece (kind : TokenKind) (w rest : List Char) : Prop where
  dark : StartsDark (w ++ rest)
  token : ∀ offset, tokensFrom offset (w ++ rest)
    = ⟨kind, w, offset⟩ :: tokensFrom (offset + Text.byteLength w) rest

namespace Parser

variable {gap w rest : List Char} {kind : TokenKind} (lead : Gap gap) (piece : IsPiece kind w rest)

include lead piece

theorem pieceAhead (offset : Nat) : ∃ start behind,
    significant (tokensFrom offset (gap ++ (w ++ rest))) = ⟨kind, w, start⟩ :: tokensFrom behind rest := by
  obtain ⟨start, same⟩ := significantGap lead piece.dark offset
  exact ⟨start, start + Text.byteLength w, same.trans (piece.token start)⟩

theorem currentAhead (offset : Nat) : ∃ start, current (tokensFrom offset (gap ++ (w ++ rest)))
    = .ok (some ⟨kind, w, start⟩, tokensFrom offset (gap ++ (w ++ rest))) := by
  obtain ⟨start, behind, ahead⟩ := pieceAhead lead piece offset
  refine ⟨start, ?_⟩
  rw [current, ahead]
  rfl

theorem readsCurrent {α : Type} {f : Option Token → Parser α} {a : α} {after : List Char}
    (h : ∀ start, Reads (f (some ⟨kind, w, start⟩)) (gap ++ (w ++ rest)) a after) :
    Reads (current >>= f) (gap ++ (w ++ rest)) a after := by
  intro offset
  obtain ⟨start, now⟩ := currentAhead lead piece offset
  obtain ⟨finish, later⟩ := h start offset
  exact ⟨finish, (bindOk now).trans later⟩

theorem failsCurrent {α : Type} {f : Option Token → Parser α}
    (h : ∀ start, Fails (f (some ⟨kind, w, start⟩)) (gap ++ (w ++ rest))) :
    Fails (current >>= f) (gap ++ (w ++ rest)) := by
  intro offset
  obtain ⟨start, now⟩ := currentAhead lead piece offset
  obtain ⟨e, failed⟩ := h start offset
  exact ⟨e, (bindOk now).trans failed⟩

theorem readsKind : Reads Parser.kind (gap ++ (w ++ rest)) (some kind) (gap ++ (w ++ rest)) :=
  readsCurrent lead piece fun _ => .pure _ _

theorem readsSkip : Reads skip (gap ++ (w ++ rest)) () rest := by
  intro offset
  obtain ⟨start, behind, ahead⟩ := pieceAhead lead piece offset
  exact ⟨behind, by rw [skip, ahead]; rfl⟩

theorem readsExpect : Reads (expect kind) (gap ++ (w ++ rest)) () rest := by
  refine readsCurrent lead piece fun start => ?_
  simp only [if_true]
  exact readsSkip lead piece

omit lead piece

theorem identifierEq (terminator : TokenKind) (ts : List Token) :
    identifier terminator ts =
      let meaning := ts.filter (!·.kind.isTrivia)
      let body := meaning.takeWhile (·.kind ≠ terminator)
      if body.length = meaning.length then .error ⟨.missing terminator, none⟩
      else match body with
        | [] => failHere (.noIdentifier terminator) ts
        | first :: _ =>
          if isStray first then failHere (.unexpected first.kind) ts
          else match idFailure? body with
            | some f => .error ⟨f.fault, f.offset⟩
            | none => .ok (String.ofList (textOf body), ts.dropWhile (·.kind ≠ terminator)) := by
  unfold identifier
  simp only [bind, StateT.bind, get, getThe, MonadStateOf.get, StateT.get, pure, Except.bind, Except.pure]
  cases (ts.filter (!·.kind.isTrivia)).takeWhile (·.kind ≠ terminator) with
  | nil =>
    simp only
    split <;> rfl
  | cons first body =>
    simp only
    split
    · rfl
    split
    · rfl
    cases idFailure? (first :: body) <;> rfl

structure IsIdPart (terminator k : TokenKind) : Prop where
  solid : k.isTrivia = false
  newline : k ≠ .newline
  valid : k ≠ .invalid
  other : k ≠ terminator

theorem IsIdPart.stray {terminator : TokenKind} {t : Token} (h : IsIdPart terminator t.kind) : isStray t = false := by
  simp [isStray, h.newline, h.valid]

structure IsRun (terminator : TokenKind) (body : List Token) : Prop where
  notEmpty : body ≠ []
  parts : ∀ t ∈ body, IsIdPart terminator t.kind
  adjacent : body.IsChain (fun a b => a.finish = b.start)

theorem idFailureNone {terminator : TokenKind} {body : List Token} (parts : ∀ t ∈ body, IsIdPart terminator t.kind)
    (adjacent : body.IsChain (fun a b => a.finish = b.start)) : idFailure? body = none := by
  induction adjacent with
  | nil => rfl
  | singleton => rfl
  | @cons_cons a b r touch chain ih =>
    have first : idFault? a b = none := by
      simp [idFault?, (parts b (by simp)).stray, touch]
    rw [idFailure?, first, ih fun t member => parts t (by simp [member])]
    rfl

theorem identifierOfRun {terminator : TokenKind} {ts body behind : List Token} {t : Token} (run : IsRun terminator body)
    (last : t.kind = terminator) (meaning : ts.filter (!·.kind.isTrivia) = body ++ t :: behind) :
    identifier terminator ts = .ok (String.ofList (textOf body), ts.dropWhile (·.kind ≠ terminator)) := by
  have taken : (body ++ t :: behind).takeWhile (·.kind ≠ terminator) = body := by
    rw [List.takeWhile_append_of_pos fun a member => by simp [(run.parts a member).other]]
    simp [last]
  have apart : body.length ≠ (body ++ t :: behind).length := by
    rw [List.length_append, List.length_cons]
    omega
  rw [identifierEq]
  simp only [meaning, taken, apart, if_false]
  cases body with
  | nil => exact absurd rfl run.notEmpty
  | cons first r =>
    simp only [(run.parts first (by simp)).stray, idFailureNone run.parts run.adjacent]
    rfl

theorem identifierOf {terminator : TokenKind} (solid : terminator.isTrivia = false)
    {front body between rest : List Token} {t : Token} (run : IsRun terminator body)
    (before : ∀ a ∈ front, a.kind.isTrivia = true) (behind : ∀ a ∈ between, a.kind.isTrivia = true)
    (last : t.kind = terminator) :
    identifier terminator (front ++ (body ++ (between ++ t :: rest)))
      = .ok (String.ofList (textOf body), t :: rest) := by
  have other {a : Token} (trivia : a.kind.isTrivia = true) : a.kind ≠ terminator := by
    rintro same
    simp [same, solid] at trivia
  have meaning : (front ++ (body ++ (between ++ t :: rest))).filter (!·.kind.isTrivia)
      = body ++ t :: rest.filter (!·.kind.isTrivia) := by
    have trivial {ts : List Token} (trivia : ∀ a ∈ ts, a.kind.isTrivia = true) :
        ts.filter (!·.kind.isTrivia) = [] := List.filter_eq_nil_iff.mpr (by simpa using trivia)
    have all : body.filter (!·.kind.isTrivia) = body :=
      List.filter_eq_self.mpr fun a member => by simp [(run.parts a member).solid]
    simp only [List.filter_append, List.filter_cons, trivial before, trivial behind, all, last, solid, List.nil_append]
    rfl
  have left : (front ++ (body ++ (between ++ t :: rest))).dropWhile (·.kind ≠ terminator) = t :: rest := by
    rw [List.dropWhile_append_of_pos (fun a member => by simp [other (before a member)]),
      List.dropWhile_append_of_pos (fun a member => by simp [(run.parts a member).other]),
      List.dropWhile_append_of_pos (fun a member => by simp [other (behind a member)])]
    simp [last]
  rw [identifierOfRun run last meaning, left]

structure IsIdentifier (terminator : TokenKind) (cs : List Char) : Prop where
  notEmpty : cs ≠ []
  parts : ∀ offset, ∀ t ∈ tokensFrom offset cs, IsIdPart terminator t.kind
  cut : ∀ {p : Char}, IsBreak p → ∀ offset rest, tokensFrom offset (cs ++ p :: rest)
    = tokensFrom offset cs ++ tokensFrom (offset + Text.byteLength cs) (p :: rest)

theorem identifierOfName {terminator : TokenKind}
    (mark : terminator = .colon ∨ terminator = .semicolon ∨ terminator = .equals)
    {id : String} (name : IsName id) : IsIdentifier terminator id.toList := by
  refine ⟨name.notEmpty, fun offset t member => ?_, fun stop offset rest => tokensBefore stop (plainChars name) offset rest⟩
  have plain := plainOfName name member
  simp only [TokenKind.isPlain, Bool.and_eq_true, decide_eq_true_eq, Bool.not_eq_true'] at plain
  rcases mark with rfl | rfl | rfl <;> constructor <;> simp [plain]

theorem IsIdentifier.dark {terminator : TokenKind} {cs : List Char} (name : IsIdentifier terminator cs)
    (rest : List Char) : StartsDark (cs ++ rest) := by
  obtain ⟨c, r, rfl⟩ := List.exists_cons_of_ne_nil name.notEmpty
  obtain ⟨w, behind, rfl, found⟩ := firstTakes c r
  have solid := (name.parts 0 _ (by rw [tokensCons 0 found]; exact List.mem_cons_self)).solid
  intro d head
  cases head
  exact darkOfSolid solid

theorem readsIdentifier {terminator : TokenKind} (solid : terminator.isTrivia = false)
    {id : String} (name : IsIdentifier terminator id.toList) {p : Char} {gap between rest : List Char}
    (piece : IsPiece terminator [p] rest) (stop : IsBreak p) (lead : Gap gap) (apart : Gap between) :
    Reads (identifier terminator) (gap ++ (id.toList ++ (between ++ p :: rest))) id (p :: rest) := by
  intro offset
  obtain ⟨front, start, before, ahead⟩ := tokensGap lead (name.dark (between ++ p :: rest)) offset
  -- Whatever stands behind an id breaks it off, so its tokens are those of the id alone.
  have body : ∃ finish, tokensFrom start (id.toList ++ (between ++ p :: rest))
      = tokensFrom start id.toList ++ tokensFrom finish (between ++ p :: rest) := by
    cases apart with
    | none => exact ⟨_, name.cut stop start rest⟩
    | space => exact ⟨_, name.cut isBreakSpace start (p :: rest)⟩
  obtain ⟨finish, cut⟩ := body
  obtain ⟨gapTokens, behind, trivia, tail⟩ := tokensGap apart piece.dark finish
  have run : IsRun terminator (tokensFrom start id.toList) := by
    refine ⟨fun empty => ?_, name.parts start, chainOfTokens start _⟩
    have text := textOfTokens start id.toList
    rw [empty] at text
    exact name.notEmpty text.symm
  have last := piece.token behind
  rw [List.singleton_append] at tail last
  refine ⟨behind, ?_⟩
  rw [ahead, cut, tail, last, identifierOf solid run before trivia rfl, textOfTokens, String.ofList_toList]

end Parser
end ConstraintDesk.Line
