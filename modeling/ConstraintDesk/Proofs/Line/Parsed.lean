import ConstraintDesk.Proofs.Line.Documents
import ConstraintDesk.Proofs.Line.Identifiers

/-! What reading a line can give. Every parser leaves tokens of the line it works on, so what the parsers
ensure of what they read follows their binds. -/
namespace ConstraintDesk

open Line.Parser (IsIdentifier)

structure Parameter.IsRead (p : Parameter) : Prop where
  name : IsIdentifier .equals p.id.toList
  unbroken : IsUnbroken p.id.toList
  fits : p.value.fits p.domain = true
  widened : p.value.asWritten p.domain = p.value

structure Variable.IsRead (v : Variable) : Prop where
  name : IsIdentifier .semicolon v.id.toList
  unbroken : IsUnbroken v.id.toList
  range : ∀ r, v.range = some r → r.Fits v.domain

structure Constraint.IsRead (c : Constraint) : Prop where
  name : IsIdentifier .colon c.id.toList
  unbroken : IsUnbroken c.id.toList
  settled : Line.IsSettled c.expression.toList

inductive Goal.IsRead : Goal → Prop
  | satisfy : Goal.IsRead ⟨.satisfy, none⟩
  | directed {kind : GoalKind} {expression : String} (objective : kind ≠ .satisfy)
      (settled : Line.IsSettled expression.toList) : Goal.IsRead ⟨kind, some expression⟩

inductive Statement.IsRead : Statement → Prop
  | parameter {p : Parameter} (read : p.IsRead) : Statement.IsRead (.parameters [p])
  | unknown {v : Variable} (read : v.IsRead) : Statement.IsRead (.unknowns [v])
  | constraint {c : Constraint} (read : c.IsRead) : Statement.IsRead (.constraints [c])
  | goal {g : Goal} (read : g.IsRead) : Statement.IsRead (.goal g)

namespace Line

def OnLine (ts : List Token) : Prop := ∃ offset cs, IsUnbroken cs ∧ ts = tokensFrom offset cs

theorem OnLine.suffix {ts rest : List Token} (line : OnLine ts) (behind : rest <:+ ts) : OnLine rest := by
  obtain ⟨offset, cs, unbroken, same⟩ := line
  obtain ⟨front, split⟩ := behind
  obtain ⟨tail, rfl, rest⟩ := tokensSplit (same.symm.trans split.symm)
  exact ⟨_, tail, unbroken.right, rest⟩

def Ensures {α : Type} (p : Parser α) (property : α → Prop) : Prop :=
  ∀ ts a rest, OnLine ts → p ts = .ok (a, rest) → property a ∧ OnLine rest

namespace Ensures

variable {α β : Type} {p : Parser α} {f : α → Parser β} {first : α → Prop} {second : β → Prop}

theorem pure {a : α} (holds : first a) : Ensures (pure a) first := by
  intro ts b rest line read
  cases read
  exact ⟨holds, line⟩

theorem bind (h : Ensures p first) (k : ∀ a, first a → Ensures (f a) second) : Ensures (p >>= f) second := by
  intro ts b rest line read
  have step : (p >>= f) ts = p ts >>= fun (a, rest) => f a rest := rfl
  rw [step] at read
  obtain ⟨⟨a, mid⟩, before, after⟩ := okOfBind read
  obtain ⟨holds, line⟩ := h ts a mid line before
  exact k a holds mid b rest line after

theorem anyway (h : Ensures p first) : Ensures p fun _ => True :=
  fun ts a rest line read => ⟨trivial, (h ts a rest line read).2⟩

theorem failAt (offset : Option Nat) (fault : Fault) : Ensures (Parser.failAt offset fault) first :=
  fun _ _ _ _ read => by cases read

theorem failHere (fault : Fault) : Ensures (Parser.failHere fault) first :=
  fun _ _ _ _ read => by cases read

theorem get {f : List Token → Parser β} (h : ∀ ts, OnLine ts → Ensures (f ts) second) :
    Ensures (MonadState.get >>= f) second := fun ts b rest line read => h ts line ts b rest line read

theorem set {ts : List Token} (line : OnLine ts) : Ensures (MonadStateOf.set ts : Parser PUnit) fun _ => True := by
  intro _ a rest _ read
  cases read
  exact ⟨trivial, line⟩

end Ensures

namespace Parser

theorem ensuresCurrent : Ensures current fun _ => True := by
  intro ts a rest line read
  cases read
  exact ⟨trivial, line⟩

theorem ensuresKind : Ensures kind fun _ => True := ensuresCurrent.bind fun _ _ => .pure trivial

theorem ensuresSkip : Ensures skip fun _ => True := by
  intro ts a rest line read
  cases read
  exact ⟨trivial, line.suffix ((List.tail_suffix _).trans (List.dropWhile_suffix _))⟩

theorem ensuresExpect (kind : TokenKind) : Ensures (expect kind) fun _ => True := by
  unfold expect
  refine ensuresCurrent.bind fun t _ => ?_
  cases t with
  | none => exact .failAt _ _
  | some t =>
    simp only
    split
    · exact ensuresSkip
    · exact .failHere _

theorem ensuresUnsigned (negative : Bool) : Ensures (unsigned negative) fun l => l.fits .float = true := by
  unfold unsigned
  refine ensuresCurrent.bind fun t _ => ?_
  cases t with
  | none => exact .failHere _
  | some t =>
    simp only
    split
    · split
      · exact ensuresSkip.bind fun _ _ => .pure rfl
      · exact .failHere _
    · exact ensuresSkip.bind fun _ _ => .pure rfl
    · exact .failHere _

theorem ensuresNumber : Ensures Parser.number fun l => l.fits .float = true := by
  rw [numberEq]
  refine ensuresCurrent.bind fun t _ => ?_
  simp only
  split
  · exact ensuresSkip.bind fun _ _ => ensuresUnsigned _
  · exact ensuresUnsigned _

theorem ensuresLiteral : Ensures literal fun _ => True := by
  unfold literal
  refine ensuresKind.bind fun k _ => ?_
  split
  · exact ensuresSkip.bind fun _ _ => .pure trivial
  · exact ensuresSkip.bind fun _ _ => .pure trivial
  · exact ensuresNumber.anyway

theorem widened {d : Domain} {l v : Literal} (wide : widen? d l = some v) :
    v.fits d = true ∧ v.asWritten d = v := by
  unfold widen? at wide
  split at wide
  · split at wide
    · next same => cases wide; exact ⟨decide_eq_true same, rfl⟩
    · cases wide
  · split at wide
    · cases wide; exact ⟨rfl, rfl⟩
    · cases wide; exact ⟨rfl, rfl⟩
    · cases wide
  · split at wide
    · next same => cases wide; exact ⟨decide_eq_true same, rfl⟩
    · cases wide

theorem ensuresValue (d : Domain) : Ensures (value d) fun v => v.fits d = true ∧ v.asWritten d = v := by
  unfold value
  refine .get fun start line => ensuresLiteral.bind fun l _ => ?_
  cases wide : widen? d l with
  | some v => exact .pure (widened wide)
  | none => exact (Ensures.set line).bind fun _ _ => .failHere _

theorem ensuresIdentifier {terminator : TokenKind}
    (mark : terminator = .colon ∨ terminator = .semicolon ∨ terminator = .equals) :
    Ensures (identifier terminator) fun id => IsIdentifier terminator id.toList ∧ IsUnbroken id.toList := by
  intro ts id rest line read
  obtain ⟨-, -, -, -, left⟩ := identifierOk read
  refine ⟨?_, line.suffix (left ▸ List.dropWhile_suffix _)⟩
  obtain ⟨offset, cs, unbroken, rfl⟩ := line
  exact identifierOnLine mark unbroken read

theorem settledOfTrim {e : List Char} (unbroken : IsUnbroken e) (strings : Quoting.outside.after e = .outside) :
    IsSettled (Text.trim e) := by
  refine ⟨Text.trimTrim e, ?_, (Quoting.afterTrim e).mpr strings⟩
  obtain ⟨front, back, parts, -, -⟩ := Text.trimParts e
  rw [parts] at unbroken
  exact unbroken.right.left

theorem ensuresExpression : Ensures expression fun e => IsSettled e.toList := by
  intro ts e rest line read
  obtain ⟨first, body, semicolon, parts, -, clean, last, -, rfl⟩ := expressionOk.mp read
  obtain ⟨offset, cs, unbroken, same⟩ := line.suffix (List.dropWhile_suffix (l := ts) _)
  have cut : tokensFrom offset cs = first :: body ++ semicolon :: rest := same.symm.trans parts
  have member : semicolon ∈ tokensFrom offset cs := by simp [cut]
  have more : ';' ∈ textOf (semicolon :: rest) := by
    simp [textOf, textOfSemicolon member last]
  have valid : ∀ a ∈ first :: body, a.kind ≠ .invalid := by
    intro a inside kind
    have stray := clean a inside
    simp [isStray, kind] at stray
  have strings := outsideOfTokens unbroken cut valid more
  have whole : OnLine (first :: body ++ semicolon :: rest) := ⟨offset, cs, unbroken, cut.symm⟩
  obtain ⟨tail, text, -⟩ := tokensSplit cut
  rw [text] at unbroken
  have settled := settledOfTrim unbroken.left strings
  exact ⟨by simpa only [String.toList_ofList] using settled, whole.suffix ⟨first :: body ++ [semicolon], by simp⟩⟩

theorem ensuresNextDomain : Ensures nextDomain fun _ => True := ensuresCurrent.bind fun _ _ => .pure trivial

theorem ensuresDomain : Ensures domain fun _ => True := by
  unfold domain
  refine ensuresNextDomain.bind fun d _ => ?_
  cases d with
  | none => exact .failHere _
  | some d => exact ensuresSkip.bind fun _ _ => .pure trivial

theorem ensuresParameter : Ensures parameter Statement.IsRead := by
  unfold parameter
  refine ensuresDomain.bind fun d _ => ?_
  refine (ensuresExpect _).bind fun _ _ => ?_
  refine (ensuresIdentifier (by simp)).bind fun id name => ?_
  refine (ensuresExpect _).bind fun _ _ => ?_
  refine (ensuresValue d).bind fun v value => ?_
  exact (ensuresExpect _).bind fun _ _ => .pure (.parameter ⟨name.1, name.2, value.1, value.2⟩)

theorem rangeFits {low high : Literal} (least : low.fits .float = true) (greatest : high.fits .float = true) :
    (Bounds.mk low high).Fits (rangeDomain low high) := by
  cases low with
  | bool b => cases least
  | int i =>
    cases high with
    | bool b => cases greatest
    | int j => exact ⟨by simp [rangeDomain], rfl, rfl⟩
    | float y => exact ⟨by simp [rangeDomain], rfl, rfl⟩
  | float x =>
    cases high with
    | bool b => cases greatest
    | int j => exact ⟨by simp [rangeDomain], rfl, rfl⟩
    | float y => exact ⟨by simp [rangeDomain], rfl, rfl⟩

theorem ensuresDeclaration : Ensures declaration Statement.IsRead := by
  unfold declaration
  refine (ensuresExpect _).bind fun _ _ => ?_
  refine ensuresNextDomain.bind fun d _ => ?_
  have named {d : Domain} {range : Option Bounds} (fits : ∀ r, range = some r → r.Fits d) :
      Ensures (do expect .colon; let id ← identifier .semicolon; expect .semicolon; return .unknowns [⟨id, d, range⟩])
        Statement.IsRead := by
    refine (ensuresExpect _).bind fun _ _ => ?_
    refine (ensuresIdentifier (by simp)).bind fun id name => ?_
    exact (ensuresExpect _).bind fun _ _ => .pure (.unknown ⟨name.1, name.2, fits⟩)
  cases d with
  | some d =>
    have chosen : Ensures (pure (d, none) : Parser (Domain × Option Bounds)) fun choice =>
        ∀ r, choice.2 = some r → r.Fits choice.1 := .pure (by simp)
    exact ensuresSkip.bind fun _ _ => chosen.bind fun _ fits => named fits
  | none =>
    refine ensuresNumber.bind fun low least => ?_
    refine (ensuresExpect _).bind fun _ _ => ?_
    refine ensuresNumber.bind fun high greatest => ?_
    have chosen : Ensures (pure (rangeDomain low high, some ⟨low, high⟩) : Parser (Domain × Option Bounds)) fun choice =>
        ∀ r, choice.2 = some r → r.Fits choice.1 :=
      .pure fun r same => by cases same; exact rangeFits least greatest
    exact chosen.bind fun _ fits => named fits

theorem ensuresConstraint : Ensures constraint Statement.IsRead := by
  unfold constraint
  refine (ensuresExpect _).bind fun _ _ => ?_
  refine (ensuresIdentifier (by simp)).bind fun id name => ?_
  refine (ensuresExpect _).bind fun _ _ => ?_
  exact ensuresExpression.bind fun e settled => .pure (.constraint ⟨name.1, name.2, settled⟩)

theorem ensuresGoal : Ensures goal Statement.IsRead := by
  unfold goal
  refine (ensuresExpect _).bind fun _ _ => ?_
  refine ensuresKind.bind fun k _ => ?_
  split
  · refine ensuresSkip.bind fun _ _ => ?_
    exact (ensuresExpect _).bind fun _ _ => .pure (.goal .satisfy)
  · refine ensuresSkip.bind fun _ _ => ?_
    exact ensuresExpression.bind fun e settled => .pure (.goal (.directed (by decide) settled))
  · refine ensuresSkip.bind fun _ _ => ?_
    exact ensuresExpression.bind fun e settled => .pure (.goal (.directed (by decide) settled))
  · exact .failHere _

theorem ensuresEnding {s : Statement} (read : s.IsRead) : Ensures (ending s) Statement.IsRead := by
  unfold ending
  refine ensuresCurrent.bind fun t _ => ?_
  split
  · have failed : Ensures (failHere .trailingText : Parser Unit) fun _ => False := .failHere _
    exact failed.bind fun _ stuck => stuck.elim
  · exact .pure read

theorem ensuresStatement : Ensures statement Statement.IsRead := by
  unfold statement
  have failed (fault : Fault) : Ensures (failHere fault : Parser Statement) Statement.IsRead := .failHere fault
  refine ensuresKind.bind fun k _ => ?_
  split
  · exact ensuresParameter.bind fun _ read => ensuresEnding read
  · exact ensuresParameter.bind fun _ read => ensuresEnding read
  · exact ensuresParameter.bind fun _ read => ensuresEnding read
  · exact ensuresDeclaration.bind fun _ read => ensuresEnding read
  · exact ensuresConstraint.bind fun _ read => ensuresEnding read
  · exact ensuresGoal.bind fun _ read => ensuresEnding read
  · exact (failed _).bind fun _ read => ensuresEnding read
  · exact (failed _).bind fun _ read => ensuresEnding read

end Parser

theorem readOfParse {line : List Char} (unbroken : IsUnbroken line) {s : Statement} (read : parse line = .ok s) :
    s.IsRead := by
  obtain ⟨left, read⟩ := parseOk.mp read
  exact (Parser.ensuresStatement _ s left ⟨0, line, unbroken, rfl⟩ read).1

end Line

namespace Model

structure IsRead (m : Model) : Prop where
  parameters : ∀ p ∈ m.parameters, p.IsRead
  unknowns : ∀ v ∈ m.unknowns, v.IsRead
  constraints : ∀ c ∈ m.constraints, c.IsRead
  goal : ∀ g, m.goal = some g → g.IsRead

theorem IsRead.statement {m : Model} (read : m.IsRead) {s : Statement} (member : s ∈ m.statements) : s.IsRead := by
  rcases memberOfStatements.mp member with ⟨p, inside, rfl⟩ | ⟨v, inside, rfl⟩ | ⟨c, inside, rfl⟩ | ⟨g, found, rfl⟩
  · exact .parameter (read.parameters p inside)
  · exact .unknown (read.unknowns v inside)
  · exact .constraint (read.constraints c inside)
  · exact .goal (read.goal g found)

theorem emptyIsRead : empty.IsRead := by constructor <;> simp [empty]

theorem IsRead.push {m : Model} (before : m.IsRead) {s : Statement} (read : s.IsRead) : (m.push s).IsRead := by
  cases read with
  | @parameter p one =>
    refine { before with parameters := fun q member => ?_ }
    rcases List.mem_append.mp member with old | new
    · exact before.parameters q old
    · exact List.mem_singleton.mp new ▸ one
  | @unknown v one =>
    refine { before with unknowns := fun w member => ?_ }
    rcases List.mem_append.mp member with old | new
    · exact before.unknowns w old
    · exact List.mem_singleton.mp new ▸ one
  | @constraint c one =>
    refine { before with constraints := fun d member => ?_ }
    rcases List.mem_append.mp member with old | new
    · exact before.constraints d old
    · exact List.mem_singleton.mp new ▸ one
  | @goal g one => exact { before with goal := fun h same => by cases same; exact one }

end Model

namespace Line

theorem readOfLines {lines : List (List Char)} (unbroken : ∀ line ∈ lines, IsUnbroken line) {m n : Model}
    (before : m.IsRead) {index : Nat} (read : addLines m index lines = .ok n) : n.IsRead := by
  induction lines generalizing m index with
  | nil =>
    cases read
    exact before
  | cons line rest ih =>
    unfold addLines addLine at read
    split at read
    · next added =>
      refine ih (fun l member => unbroken l (by simp [member])) ?_ read
      split at added
      · cases added
        exact before
      · split at added
        · next s parsed =>
          cases added
          exact before.push (readOfParse (unbroken line (by simp)) parsed)
        · cases added
    · cases read

theorem readOfDocument {text : List Char} {m : Model} (read : parseDocument text = .ok m) : m.IsRead :=
  readOfLines (fun _ member => Text.linesUnbroken member) Model.emptyIsRead read

end Line
end ConstraintDesk
