import ConstraintDesk.Proofs.Line.Identifiers
import ConstraintDesk.Proofs.Line.Written

/-! What a parser that fails can blame: one of the tokens it was given, or the end of the text. What it
leaves when it does not fail is the end of those tokens, so failures follow the binds as well. -/
namespace ConstraintDesk.Line

structure Failure.IsAmong (f : Failure) (ts : List Token) : Prop where
  stated : f.fault ≠ .emptyLine
  place : ∀ offset, f.offset = some offset → ∃ t ∈ ts, t.start = offset

theorem Failure.IsAmong.within {f : Failure} {ts rest : List Token} (among : f.IsAmong rest) (inside : rest ⊆ ts) :
    f.IsAmong ts := by
  refine ⟨among.stated, fun offset same => ?_⟩
  obtain ⟨t, member, start⟩ := among.place offset same
  exact ⟨t, inside member, start⟩

theorem Failure.IsAmong.atEnd {fault : Fault} (stated : fault ≠ .emptyLine) (ts : List Token) :
    Failure.IsAmong ⟨fault, none⟩ ts := ⟨stated, fun offset same => by cases same⟩

theorem Failure.IsAmong.onToken {fault : Fault} (stated : fault ≠ .emptyLine) {ts : List Token} {t : Token}
    (member : t ∈ ts) : Failure.IsAmong ⟨fault, some t.start⟩ ts :=
  ⟨stated, fun _ same => ⟨t, member, Option.some.inj same⟩⟩

structure Stays {α : Type} (p : Parser α) : Prop where
  leaves : ∀ {ts a rest}, p ts = .ok (a, rest) → rest <:+ ts
  blames : ∀ {ts f}, p ts = .error f → f.IsAmong ts

namespace Stays

variable {α β : Type} {p : Parser α} {f : α → Parser β}

theorem pure (a : α) : Stays (pure a : Parser α) := by
  constructor
  · intro ts b rest read
    cases read
    exact List.suffix_refl ts
  · intro ts e failed
    cases failed

theorem bind (h : Stays p) (k : ∀ a, Stays (f a)) : Stays (p >>= f) := by
  have step (ts : List Token) : (p >>= f) ts = p ts >>= fun (a, rest) => f a rest := rfl
  constructor
  · intro ts b rest read
    rw [step] at read
    obtain ⟨⟨a, mid⟩, before, after⟩ := okOfBind read
    exact ((k a).leaves after).trans (h.leaves before)
  · intro ts e failed
    rw [step] at failed
    cases before : p ts with
    | error own =>
      rw [before] at failed
      cases failed
      exact h.blames before
    | ok read =>
      obtain ⟨a, mid⟩ := read
      rw [before] at failed
      -- The second parser blames what the first one left.
      exact ((k a).blames failed).within (h.leaves before).subset

theorem fails {e : List Token → Failure} (among : ∀ ts, (e ts).IsAmong ts) :
    Stays (fun ts => .error (e ts) : Parser α) := by
  constructor
  · intro ts a rest read
    cases read
  · intro ts f failed
    cases failed
    exact among ts

theorem failHere {fault : Fault} (stated : fault ≠ .emptyLine) : Stays (Parser.failHere fault : Parser α) := by
  refine .fails fun ts => ?_
  cases ahead : (significant ts).head? with
  | none => exact .atEnd stated ts
  | some t => exact .onToken stated ((List.dropWhile_suffix _).subset (List.mem_of_head? ahead))

theorem failAtEnd {fault : Fault} (stated : fault ≠ .emptyLine) : Stays (Parser.failAt none fault : Parser α) :=
  .fails fun ts => .atEnd stated ts

end Stays

namespace Parser

theorem staysCurrent : Stays current := by
  constructor
  · intro ts a rest read
    cases read
    exact List.suffix_refl ts
  · intro ts e failed
    cases failed

theorem staysKind : Stays kind := staysCurrent.bind fun _ => .pure _

theorem staysNextDomain : Stays nextDomain := staysCurrent.bind fun _ => .pure _

theorem staysSkip : Stays skip := by
  constructor
  · intro ts a rest read
    cases read
    exact (List.tail_suffix _).trans (List.dropWhile_suffix _)
  · intro ts e failed
    cases failed

theorem staysExpect (kind : TokenKind) : Stays (expect kind) := by
  unfold expect
  refine staysCurrent.bind fun t => ?_
  cases t with
  | none => exact .failAtEnd (by simp)
  | some t =>
    simp only
    split
    · exact staysSkip
    · exact .failHere (by simp)

theorem staysUnsigned (negative : Bool) : Stays (unsigned negative) := by
  unfold unsigned
  refine staysCurrent.bind fun t => ?_
  cases t with
  | none => exact .failHere (by simp)
  | some t =>
    simp only
    split
    · split
      · exact staysSkip.bind fun _ => .pure _
      · exact .failHere (by simp)
    · exact staysSkip.bind fun _ => .pure _
    · exact .failHere (by simp)

theorem staysNumber : Stays Parser.number := by
  rw [numberEq]
  refine staysCurrent.bind fun t => ?_
  simp only
  split
  · exact staysSkip.bind fun _ => staysUnsigned _
  · exact staysUnsigned _

theorem staysLiteral : Stays literal := by
  unfold literal
  refine staysKind.bind fun k => ?_
  split
  · exact staysSkip.bind fun _ => .pure _
  · exact staysSkip.bind fun _ => .pure _
  · exact staysNumber

theorem valueEq (d : Domain) (ts : List Token) :
    value d ts = literal ts >>= fun (l, rest) =>
      match widen? d l with
      | some v => .ok (v, rest)
      | none => failHere (.wrongValue d) ts := by
  unfold value
  simp only [bind, StateT.bind, get, getThe, MonadStateOf.get, StateT.get, pure, Except.bind, Except.pure]
  cases literal ts with
  | error e => rfl
  | ok read =>
    simp only
    cases widen? d read.1 <;> rfl

theorem staysValue (d : Domain) : Stays (value d) := by
  have wrong : Stays (failHere (.wrongValue d) : Parser Literal) := .failHere (by simp)
  constructor
  · intro ts v rest read
    rw [valueEq] at read
    obtain ⟨⟨l, left⟩, before, after⟩ := okOfBind read
    simp only at after
    split at after
    · cases after
      exact staysLiteral.leaves before
    · exact wrong.leaves after
  · intro ts e failed
    rw [valueEq] at failed
    cases before : literal ts with
    | error own =>
      rw [before] at failed
      cases failed
      exact staysLiteral.blames before
    | ok read =>
      rw [before] at failed
      simp only [bind, Except.bind] at failed
      split at failed
      · cases failed
      · exact wrong.blames failed

theorem idFaultStated {a b : Token} {fault : Fault} (about : idFault? a b = some fault) : fault ≠ .emptyLine := by
  unfold idFault? at about
  split at about
  · cases about
    simp
  · split at about
    · cases about
      simp
    · cases about

theorem idFailureAmong {body : List Token} {f : Failure} (found : idFailure? body = some f) : f.IsAmong body := by
  induction body with
  | nil => cases found
  | cons a body ih =>
    cases body with
    | nil => cases found
    | cons b body =>
      rw [idFailure?] at found
      rcases Option.or_eq_some_iff.mp found with here | ⟨-, later⟩
      · obtain ⟨fault, about, rfl⟩ := Option.map_eq_some_iff.mp here
        exact .onToken (idFaultStated about) (by simp)
      · exact (ih later).within (List.subset_cons_self a _)

theorem staysIdentifier (terminator : TokenKind) : Stays (identifier terminator) := by
  have blamed {fault : Fault} (stated : fault ≠ .emptyLine) : Stays (failHere fault : Parser String) := .failHere stated
  constructor
  · intro ts id rest read
    obtain ⟨-, -, -, -, rfl⟩ := identifierOk read
    exact List.dropWhile_suffix _
  · intro ts e failed
    rw [identifierEq] at failed
    simp only at failed
    split at failed
    · cases failed
      exact .atEnd (by simp) ts
    split at failed
    · exact (blamed (by simp)).blames failed
    next first later body =>
      split at failed
      · exact (blamed (by simp)).blames failed
      split at failed
      · next f found =>
        cases failed
        have part : (idBody terminator ts).Sublist ts := (List.takeWhile_sublist _).trans List.filter_sublist
        exact (idFailureAmong found).within part.subset
      · cases failed

theorem staysExpression : Stays expression := by
  have missing : Stays (failHere .noExpression : Parser String) := .failHere (by simp)
  have inside (ts : List Token) : significant ts <:+ ts := List.dropWhile_suffix _
  constructor
  · intro ts e rest read
    obtain ⟨first, body, semicolon, parts, -⟩ := expressionOk.mp read
    exact List.IsSuffix.trans ⟨first :: (body ++ [semicolon]), by simp [parts]⟩ (inside ts)
  · intro ts e failed
    rw [expressionEq] at failed
    split at failed
    · exact missing.blames failed
    split at failed
    · exact missing.blames failed
    split at failed
    · cases failed
      exact .atEnd (by simp) ts
    next body left found =>
    split at failed
    · next t stray =>
      cases failed
      obtain ⟨last, parts, -⟩ := partsOfSplitLast found
      have member : t ∈ significant ts := by simp [parts, List.mem_of_find?_eq_some stray]
      exact .onToken (by simp) ((inside ts).subset member)
    · cases failed

theorem staysDomain : Stays domain := by
  unfold domain
  refine staysNextDomain.bind fun d => ?_
  cases d with
  | none => exact .failHere (by simp)
  | some d => exact staysSkip.bind fun _ => .pure _

theorem staysParameter : Stays parameter := by
  unfold parameter
  refine staysDomain.bind fun d => ?_
  refine (staysExpect _).bind fun _ => ?_
  refine (staysIdentifier _).bind fun id => ?_
  refine (staysExpect _).bind fun _ => ?_
  refine (staysValue d).bind fun v => ?_
  exact (staysExpect _).bind fun _ => .pure _

theorem staysDeclaration : Stays declaration := by
  unfold declaration
  refine (staysExpect _).bind fun _ => ?_
  refine staysNextDomain.bind fun d => ?_
  have named (d : Domain) (range : Option Bounds) : Stays (do
      expect .colon
      let id ← identifier .semicolon
      expect .semicolon
      return Statement.unknowns [⟨id, d, range⟩]) := by
    refine (staysExpect _).bind fun _ => ?_
    refine (staysIdentifier _).bind fun id => ?_
    exact (staysExpect _).bind fun _ => .pure _
  cases d with
  | some d => exact staysSkip.bind fun _ => (Stays.pure (d, none)).bind fun _ => named _ _
  | none =>
    refine staysNumber.bind fun low => ?_
    refine (staysExpect _).bind fun _ => ?_
    refine staysNumber.bind fun high => ?_
    exact (Stays.pure (rangeDomain low high, some (Bounds.mk low high))).bind fun _ => named _ _

theorem staysConstraint : Stays constraint := by
  unfold constraint
  refine (staysExpect _).bind fun _ => ?_
  refine (staysIdentifier _).bind fun id => ?_
  refine (staysExpect _).bind fun _ => ?_
  exact staysExpression.bind fun e => .pure _

theorem staysGoal : Stays goal := by
  unfold goal
  refine (staysExpect _).bind fun _ => ?_
  refine staysKind.bind fun k => ?_
  split
  · exact staysSkip.bind fun _ => (staysExpect _).bind fun _ => .pure _
  · exact staysSkip.bind fun _ => staysExpression.bind fun _ => .pure _
  · exact staysSkip.bind fun _ => staysExpression.bind fun _ => .pure _
  · exact .failHere (by simp)

theorem staysEnding (s : Statement) : Stays (ending s) := by
  unfold ending
  refine staysCurrent.bind fun t => ?_
  split
  · have trailing : Stays (failHere .trailingText : Parser Unit) := .failHere (by simp)
    exact trailing.bind fun _ => .pure s
  · exact .pure s

theorem statementBlames {ts : List Token} {f : Failure} (nonempty : significant ts ≠ [])
    (failed : statement ts = .error f) : f.IsAmong ts := by
  obtain ⟨t, r, ahead⟩ := List.exists_cons_of_ne_nil nonempty
  have here : kind ts = .ok (.some t.kind, ts) := by
    unfold kind
    rw [bindOk (rfl : current ts = .ok ((significant ts).head?, ts)), ahead]
    rfl
  unfold statement at failed
  rw [bindOk here] at failed
  have noStatement : Stays (failHere .noStatement : Parser Statement) := .failHere (by simp)
  refine Stays.blames ?_ failed
  split
  · exact staysParameter.bind staysEnding
  · exact staysParameter.bind staysEnding
  · exact staysParameter.bind staysEnding
  · exact staysDeclaration.bind staysEnding
  · exact staysConstraint.bind staysEnding
  · exact staysGoal.bind staysEnding
  · exact noStatement.bind staysEnding
  · next nothing => cases nothing

end Parser

end ConstraintDesk.Line
