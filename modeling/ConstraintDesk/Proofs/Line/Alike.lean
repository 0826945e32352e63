import ConstraintDesk.Proofs.Line.Derived

/-! Tokens that stand in the same places and differ at most in the texts of their strings. No rule of the
grammar looks into a string, so such tokens make up statements of the same shape. -/
namespace ConstraintDesk.Line

structure Alike (t u : Token) : Prop where
  kind : u.kind = t.kind
  start : u.start = t.start
  finish : u.finish = t.finish
  text : t.kind ≠ .string → u.text = t.text

theorem Alike.symm {t u : Token} (h : Alike t u) : Alike u t :=
  ⟨h.kind.symm, h.start.symm, h.finish.symm, fun other => (h.text (h.kind ▸ other)).symm⟩

theorem Alike.stray {t u : Token} (h : Alike t u) : isStray u = isStray t := by
  rw [isStray, isStray, h.kind]

abbrev AllAlike : List Token → List Token → Prop := List.Forall₂ Alike

namespace AllAlike

variable {ts us : List Token}

theorem symm (h : AllAlike ts us) : AllAlike us ts := (h.imp fun _ _ => Alike.symm).flip

theorem ofCons {t : Token} (h : AllAlike (t :: ts) us) : ∃ u rest, us = u :: rest ∧ Alike t u ∧ AllAlike ts rest := by
  cases h with
  | cons one others => exact ⟨_, _, rfl, one, others⟩

theorem ofAppend {front back : List Token} (h : AllAlike (front ++ back) us) :
    ∃ left right, us = left ++ right ∧ AllAlike front left ∧ AllAlike back right := by
  induction front generalizing us with
  | nil => exact ⟨[], us, rfl, .nil, h⟩
  | cons t front ih =>
    obtain ⟨u, rest, rfl, one, others⟩ := ofCons h
    obtain ⟨left, right, rfl, ahead, behind⟩ := ih others
    exact ⟨u :: left, right, rfl, .cons one ahead, behind⟩

theorem member (h : AllAlike ts us) {u : Token} (inside : u ∈ us) : ∃ t ∈ ts, Alike t u := by
  induction h with
  | nil => cases inside
  | @cons t v ts us one others ih =>
    rcases List.mem_cons.mp inside with rfl | later
    · exact ⟨t, List.mem_cons_self, one⟩
    · obtain ⟨s, found, same⟩ := ih later
      exact ⟨s, List.mem_cons_of_mem _ found, same⟩

theorem meaning (h : AllAlike ts us) : AllAlike (meaning ts) (meaning us) := by
  induction h with
  | nil => exact .nil
  | @cons t u ts us one others ih =>
    unfold Line.meaning at ih ⊢
    cases trivia : t.kind.isTrivia with
    | true => rwa [List.filter_cons_of_neg (by simp [trivia]), List.filter_cons_of_neg (by simp [one.kind, trivia])]
    | false =>
      rw [List.filter_cons_of_pos (by simp [trivia]), List.filter_cons_of_pos (by simp [one.kind, trivia])]
      exact .cons one ih

theorem adjacent (h : AllAlike ts us) (chain : ts.IsChain (fun a b => a.finish = b.start)) :
    us.IsChain (fun a b => a.finish = b.start) := by
  induction h with
  | nil => exact .nil
  | @cons t u ts us one others ih =>
    obtain ⟨first, later⟩ := List.isChain_cons.mp chain
    refine List.isChain_cons.mpr ⟨fun v head => ?_, ih later⟩
    cases others with
    | nil => cases head
    | cons two others =>
      cases head
      rw [one.finish, two.start]
      exact first _ rfl

end AllAlike

variable {us : List Token}

theorem IsUnsigned.alike {negative : Bool} {t u : Token} {l : Literal} (h : IsUnsigned negative t l)
    (same : Alike t u) : IsUnsigned negative u l := by
  cases h with
  | int kind value => exact .int (same.kind.trans kind) (same.text (by simp [kind]) ▸ value)
  | float kind value => exact .float (same.kind.trans kind) (same.text (by simp [kind]) ▸ value)

theorem IsNumber.alike {body : List Token} {l : Literal} (h : IsNumber body l) (same : AllAlike body us) :
    IsNumber us l := by
  cases h with
  | plain value =>
    obtain ⟨u, _, rfl, one, empty⟩ := same.ofCons
    cases empty
    exact .plain (value.alike one)
  | negated sign value =>
    obtain ⟨minus, _, rfl, one, rest⟩ := same.ofCons
    obtain ⟨u, _, rfl, two, empty⟩ := rest.ofCons
    cases empty
    exact .negated (one.kind.trans sign) (value.alike two)

theorem IsLiteral.alike {body : List Token} {l : Literal} (h : IsLiteral body l) (same : AllAlike body us) :
    IsLiteral us l := by
  cases h with
  | true kind =>
    obtain ⟨u, _, rfl, one, empty⟩ := same.ofCons
    cases empty
    exact .true (one.kind.trans kind)
  | false kind =>
    obtain ⟨u, _, rfl, one, empty⟩ := same.ofCons
    cases empty
    exact .false (one.kind.trans kind)
  | number value => exact .number (value.alike same)

theorem IsType.alike {body : List Token} {d : Domain} {range : Option Bounds} (h : IsType body d range)
    (same : AllAlike body us) : IsType us d range := by
  cases h with
  | domain kind =>
    obtain ⟨u, _, rfl, one, empty⟩ := same.ofCons
    cases empty
    exact .domain (one.kind.trans kind)
  | range min kind max =>
    obtain ⟨low, rest, rfl, first, later⟩ := same.ofAppend
    obtain ⟨dots, high, rfl, one, last⟩ := later.ofCons
    exact .range (min.alike first) (one.kind.trans kind) (max.alike last)

theorem IsId.alike {terminator : TokenKind} {body : List Token} {id : String} (h : IsId terminator body id)
    (same : AllAlike body us) : ∃ name, IsId terminator us name := by
  refine ⟨_, ⟨?_, fun u inside => ?_, same.adjacent h.run.adjacent⟩, rfl⟩
  · rintro rfl
    exact h.run.notEmpty (List.forall₂_nil_right_iff.mp same)
  · obtain ⟨t, found, one⟩ := same.member inside
    exact one.kind ▸ h.run.parts t found

theorem IsExpression.alike {cs : List Char} {body : List Token} {e : String} (h : IsExpression cs body e)
    (same : AllAlike body us) (other : List Char) : ∃ text, IsExpression other us text := by
  cases h with
  | ended begins clean kind =>
    obtain ⟨first, _, rfl, one, rest⟩ := same.ofCons
    obtain ⟨middle, _, rfl, inner, last⟩ := rest.ofAppend
    obtain ⟨semicolon, _, rfl, ends, empty⟩ := last.ofCons
    cases empty
    refine ⟨_, .ended (one.kind ▸ begins) (fun u inside => ?_) (ends.kind.trans kind)⟩
    obtain ⟨t, found, alike⟩ := AllAlike.member (List.Forall₂.cons one inner) inside
    exact alike.stray.trans (clean t found)

theorem IsParameter.alike {body : List Token} {p : Parameter} (h : IsParameter body p) (same : AllAlike body us) :
    ∃ q, IsParameter us q := by
  cases h with
  | declared domain behindType named behindName value fits ends =>
    obtain ⟨type, _, rfl, one, rest⟩ := same.ofCons
    obtain ⟨colon, _, rfl, two, rest⟩ := rest.ofCons
    obtain ⟨name, _, rfl, run, rest⟩ := rest.ofAppend
    obtain ⟨equals, _, rfl, three, rest⟩ := rest.ofCons
    obtain ⟨literal, _, rfl, written, last⟩ := rest.ofAppend
    obtain ⟨semicolon, _, rfl, four, empty⟩ := last.ofCons
    cases empty
    obtain ⟨id, named⟩ := named.alike run
    exact ⟨_, .declared (one.kind.trans domain) (two.kind.trans behindType) named (three.kind.trans behindName)
      (value.alike written) fits (four.kind.trans ends)⟩

theorem IsUnknown.alike {body : List Token} {v : Variable} (h : IsUnknown body v) (same : AllAlike body us) :
    ∃ w, IsUnknown us w := by
  cases h with
  | declared word typed behindType named ends =>
    obtain ⟨var, _, rfl, one, rest⟩ := same.ofCons
    obtain ⟨type, _, rfl, written, rest⟩ := rest.ofAppend
    obtain ⟨colon, _, rfl, two, rest⟩ := rest.ofCons
    obtain ⟨name, _, rfl, run, last⟩ := rest.ofAppend
    obtain ⟨semicolon, _, rfl, three, empty⟩ := last.ofCons
    cases empty
    obtain ⟨id, named⟩ := named.alike run
    exact ⟨_, .declared (one.kind.trans word) (typed.alike written) (two.kind.trans behindType) named
      (three.kind.trans ends)⟩

variable {cs : List Char} {body : List Token}

theorem IsConstraint.alike {c : Constraint} (h : IsConstraint cs body c) (same : AllAlike body us)
    (other : List Char) : ∃ d, IsConstraint other us d := by
  cases h with
  | stated word named behindName states =>
    obtain ⟨constraint, _, rfl, one, rest⟩ := same.ofCons
    obtain ⟨name, _, rfl, run, rest⟩ := rest.ofAppend
    obtain ⟨colon, _, rfl, two, rest⟩ := rest.ofCons
    obtain ⟨id, named⟩ := named.alike run
    obtain ⟨e, states⟩ := states.alike rest other
    exact ⟨_, .stated (one.kind.trans word) named (two.kind.trans behindName) states⟩

theorem IsGoal.alike {g : Goal} (h : IsGoal cs body g) (same : AllAlike body us) (other : List Char) :
    ∃ g', IsGoal other us g' := by
  cases h with
  | satisfy word directive ends =>
    obtain ⟨solve, _, rfl, one, rest⟩ := same.ofCons
    obtain ⟨satisfy, _, rfl, two, rest⟩ := rest.ofCons
    obtain ⟨semicolon, _, rfl, three, empty⟩ := rest.ofCons
    cases empty
    exact ⟨_, .satisfy (one.kind.trans word) (two.kind.trans directive) (three.kind.trans ends)⟩
  | minimize word directive states =>
    obtain ⟨solve, _, rfl, one, rest⟩ := same.ofCons
    obtain ⟨minimize, _, rfl, two, rest⟩ := rest.ofCons
    obtain ⟨e, states⟩ := states.alike rest other
    exact ⟨_, .minimize (one.kind.trans word) (two.kind.trans directive) states⟩
  | maximize word directive states =>
    obtain ⟨solve, _, rfl, one, rest⟩ := same.ofCons
    obtain ⟨maximize, _, rfl, two, rest⟩ := rest.ofCons
    obtain ⟨e, states⟩ := states.alike rest other
    exact ⟨_, .maximize (one.kind.trans word) (two.kind.trans directive) states⟩

theorem IsStatement.alike {s : Statement} (h : IsStatement cs body s) (same : AllAlike body us)
    (other : List Char) : ∃ s', IsStatement other us s' := by
  cases h with
  | parameter h =>
    obtain ⟨q, derived⟩ := h.alike same
    exact ⟨_, .parameter derived⟩
  | unknown h =>
    obtain ⟨w, derived⟩ := h.alike same
    exact ⟨_, .unknown derived⟩
  | constraint h =>
    obtain ⟨d, derived⟩ := h.alike same other
    exact ⟨_, .constraint derived⟩
  | goal h =>
    obtain ⟨g, derived⟩ := h.alike same other
    exact ⟨_, .goal derived⟩

end ConstraintDesk.Line
