import ConstraintDesk.Machine.Regex
import Mathlib

/-! What regular expressions fit, and that the search finds it: of all places where an expression fits, the first one,
and from there as far as it can. -/
namespace ConstraintDesk.Machine.Regex

variable {ignoreCase : Bool} {r a b body : Regex} {p q t : Position} {fuel : Nat} {k : Position → Option Position}

def inSet (ignoreCase negated : Bool) (ranges : List (Char × Char)) (c : Char) : Bool :=
  (inRanges ranges c || (ignoreCase && (inRanges ranges c.toLower || inRanges ranges c.toUpper))) != negated

def Position.grouped (p q : Position) (n : Nat) : Position :=
  { q with groups := (n, p.rest.take (q.index - p.index)) :: q.groups }

def Position.group (p : Position) (n : Nat) : Bytes := (p.groups.lookup n).getD []

inductive Fits (ignoreCase : Bool) : Regex → Position → Position → Prop
  | empty {p : Position} : Fits ignoreCase .empty p p
  | char {c : Char} {p q : Position} (next : p.next? (fun x => fold ignoreCase x = fold ignoreCase c) = some q) :
    Fits ignoreCase (.char c) p q
  | any {p q : Position} (next : p.next? (fun _ => true) = some q) : Fits ignoreCase .any p q
  | set {negated : Bool} {ranges : List (Char × Char)} {p q : Position}
    (next : p.next? (inSet ignoreCase negated ranges) = some q) : Fits ignoreCase (.set negated ranges) p q
  | lineStart {p : Position} (start : p.index = 0) : Fits ignoreCase .lineStart p p
  | lineEnd {p : Position} (ended : p.rest = []) : Fits ignoreCase .lineEnd p p
  | wordEdge {p : Position} (edge : p.before.any isWordChar ≠ p.rest.head?.any isWordChar) :
    Fits ignoreCase .wordEdge p p
  | group {n : Nat} {body : Regex} {p q : Position} (inner : Fits ignoreCase body p q) :
    Fits ignoreCase (.group n body) p (p.grouped q n)
  | reference {n : Nat} {p : Position} (again : p.group n <+: p.rest) :
    Fits ignoreCase (.reference n) p (p.skip (p.group n).length)
  | sequence {a b : Regex} {p q t : Position} (first : Fits ignoreCase a p q) (second : Fits ignoreCase b q t) :
    Fits ignoreCase (.sequence a b) p t
  | first {a b : Regex} {p q : Position} (fits : Fits ignoreCase a p q) : Fits ignoreCase (.choice a b) p q
  | second {a b : Regex} {p q : Position} (fits : Fits ignoreCase b p q) : Fits ignoreCase (.choice a b) p q
  | enough {body : Regex} {least : Nat} {most : Option Nat} {p : Position} (done : most = some 0 ∨ least = 0) :
    Fits ignoreCase (.repeated body least most) p p
  | again {body : Regex} {least : Nat} {most : Option Nat} {p q t : Position} (more : most ≠ some 0)
    (once : Fits ignoreCase body p q) (ahead : q.index ≠ p.index)
    (rest : Fits ignoreCase (.repeated body (least - 1) (most.map (· - 1))) q t) :
    Fits ignoreCase (.repeated body least most) p t
  -- What fits without taking anything fits as often as is asked for.
  | still {body : Regex} {least : Nat} {most : Option Nat} {p q : Position} (more : most ≠ some 0)
    (owed : least ≠ 0) (once : Fits ignoreCase body p q) (here : q.index = p.index) :
    Fits ignoreCase (.repeated body least most) p q

theorem longerSome {first : Option Position} {second : Unit → Option Position} (found : longer first second = some t) :
    first = some t ∨ second () = some t := by
  unfold longer at found
  split at found
  · exact .inr found
  · next p =>
    split at found
    · exact .inl found
    · split at found
      · next q other =>
        split at found
        · exact .inr (other.trans found)
        · exact .inl found
      · exact .inl found

theorem guardSome {o : Option Position} {c : Prop} [Decidable c] (found : (if c then o else none) = some t) :
    c ∧ o = some t := by
  split at found
  · next holds => exact ⟨holds, found⟩
  · cases found

theorem runSound (found : run fuel ignoreCase r p k = some t) : ∃ q, Fits ignoreCase r p q ∧ k q = some t := by
  induction fuel generalizing r p k with
  | zero => cases found
  | succ fuel ih =>
    cases r with
    | empty => exact ⟨p, .empty, found⟩
    | char c =>
      obtain ⟨q, next, rest⟩ := Option.bind_eq_some_iff.mp found
      exact ⟨q, .char next, rest⟩
    | any =>
      obtain ⟨q, next, rest⟩ := Option.bind_eq_some_iff.mp found
      exact ⟨q, .any next, rest⟩
    | set negated ranges =>
      obtain ⟨q, next, rest⟩ := Option.bind_eq_some_iff.mp found
      exact ⟨q, .set next, rest⟩
    | lineStart =>
      obtain ⟨start, rest⟩ := guardSome found
      exact ⟨p, .lineStart start, rest⟩
    | lineEnd =>
      obtain ⟨ended, rest⟩ := guardSome found
      exact ⟨p, .lineEnd (List.isEmpty_iff.mp ended), rest⟩
    | wordEdge =>
      obtain ⟨edge, rest⟩ := guardSome found
      exact ⟨p, .wordEdge (by simpa using edge), rest⟩
    | group n body =>
      obtain ⟨q, inner, rest⟩ := ih found
      exact ⟨_, .group inner, rest⟩
    | reference n =>
      obtain ⟨again, rest⟩ := guardSome found
      exact ⟨_, .reference (List.isPrefixOf_iff_prefix.mp again), rest⟩
    | sequence a b =>
      obtain ⟨q, first, behind⟩ := ih found
      obtain ⟨t, second, rest⟩ := ih behind
      exact ⟨t, .sequence first second, rest⟩
    | choice a b =>
      simp only [run] at found
      rcases longerSome found with first | second
      · obtain ⟨q, fits, rest⟩ := ih first
        exact ⟨q, .first fits, rest⟩
      · obtain ⟨q, fits, rest⟩ := ih second
        exact ⟨q, .second fits, rest⟩
    | repeated body least most =>
      simp only [run] at found
      split at found
      · next done => exact ⟨p, .enough (.inl done), found⟩
      · next more =>
        rcases longerSome found with onward | other
        · obtain ⟨q, once, behind⟩ := ih onward
          split at behind
          · cases behind
          · next ahead =>
            obtain ⟨t, rest, last⟩ := ih behind
            exact ⟨t, .again more once ahead rest, last⟩
        · split at other
          · next free => exact ⟨p, .enough (.inr free), other⟩
          · next owed =>
            obtain ⟨q, once, behind⟩ := ih other
            obtain ⟨here, last⟩ := guardSome behind
            exact ⟨q, .still more owed once here, last⟩

section Longest

def Position.ending (p : Position) : Nat := p.index + p.rest.length

theorem nextAhead {accepts : Char → Bool} (next : p.next? accepts = some q) :
    q.ending = p.ending ∧ p.index ≤ q.index := by
  unfold Position.next? at next
  split at next
  · next c rest ahead =>
    split at next
    · cases next
      simp only [Position.ending, ahead, List.length_cons]
      omega
    · cases next
  · cases next

theorem Fits.ahead (fits : Fits ignoreCase r p q) : q.ending = p.ending ∧ p.index ≤ q.index := by
  induction fits with
  | empty | lineStart | lineEnd | wordEdge | enough => exact ⟨rfl, le_rfl⟩
  | char next | any next | set next => exact nextAhead next
  | group _ ih | first _ ih | second _ ih | still _ _ _ _ ih => exact ih
  | reference again =>
    have short := again.length_le
    simp only [Position.ending, Position.skip, List.length_drop]
    omega
  | sequence _ _ ihFirst ihSecond => exact ⟨ihSecond.1.trans ihFirst.1, ihFirst.2.trans ihSecond.2⟩
  | again _ _ _ _ ihOnce ihRest => exact ⟨ihRest.1.trans ihOnce.1, ihOnce.2.trans ihRest.2⟩

theorem Fits.shorter (fits : Fits ignoreCase r p q) : q.rest.length ≤ p.rest.length := by
  have ahead := fits.ahead
  simp only [Position.ending] at ahead
  omega

theorem Fits.progress (fits : Fits ignoreCase r p q) (ahead : q.index ≠ p.index) : q.rest.length < p.rest.length := by
  have onward := fits.ahead
  simp only [Position.ending] at onward
  omega

def Stays (k : Position → Option Position) : Prop := ∀ q t, k q = some t → t.ending = q.ending

theorem runStays (stays : Stays k) : Stays fun q => run fuel ignoreCase r q k := by
  intro q t found
  obtain ⟨u, fits, rest⟩ := runSound found
  exact (stays u t rest).trans fits.ahead.1

def Reaches (n : Nat) (o : Option Position) : Prop := ∃ best, o = some best ∧ n ≤ best.index

variable {n : Nat} {first : Option Position} {second : Unit → Option Position}

theorem longerFirst (reaches : Reaches n first) : Reaches n (longer first second) := by
  obtain ⟨p, rfl, far⟩ := reaches
  unfold longer
  dsimp only
  split
  · exact ⟨p, rfl, far⟩
  · split
    · next q _ =>
      split
      · next less => exact ⟨q, rfl, far.trans less.le⟩
      · exact ⟨p, rfl, far⟩
    · exact ⟨p, rfl, far⟩

theorem longerSecond (reaches : Reaches n (second ())) (alike : ∀ p q, first = some p → second () = some q →
    p.ending = q.ending) : Reaches n (longer first second) := by
  obtain ⟨q, found, far⟩ := reaches
  unfold longer
  split
  · exact ⟨q, found, far⟩
  · next p =>
    have same := alike p q rfl found
    split
    · next ended =>
      refine ⟨p, rfl, ?_⟩
      rw [List.isEmpty_iff] at ended
      simp only [Position.ending, ended, List.length_nil] at same
      omega
    · rw [found]
      dsimp only
      split
      · exact ⟨q, rfl, far⟩
      · exact ⟨p, rfl, by omega⟩

theorem staysIf {c : Position → Prop} [DecidablePred c] {other : Position → Option Position} (stays : Stays k)
    (staysToo : Stays other) : Stays fun q => if c q then k q else other q := by
  intro q t found
  dsimp only at found
  split at found
  · exact stays q t found
  · exact staysToo q t found

theorem staysNone : Stays fun _ => none := nofun

-- A step goes into a part of the expression, or it repeats one and leaves less to be read.
def need (r : Regex) (p : Position) : Nat := r.size * (p.rest.length + 1)

theorem needPos (r : Regex) (p : Position) : 0 < need r p := by
  have positive : 0 < r.size := by cases r <;> simp [size]
  exact Nat.mul_pos positive (Nat.succ_pos _)

theorem needOf {small : Nat} (p : Position) (enough : (small + 1) * (p.rest.length + 1) ≤ fuel + 1) :
    small * (p.rest.length + 1) ≤ fuel := by
  rw [Nat.add_mul] at enough
  omega

theorem needEach (enough : (a.size + b.size + 1) * (p.rest.length + 1) ≤ fuel + 1) :
    need a p ≤ fuel ∧ need b p ≤ fuel := by
  have both := needOf p enough
  rw [Nat.add_mul] at both
  exact ⟨by unfold need; omega, by unfold need; omega⟩

theorem needBehind (enough : need r p ≤ fuel) (shorter : q.rest.length ≤ p.rest.length) : need r q ≤ fuel :=
  (Nat.mul_le_mul_left _ (Nat.succ_le_succ shorter)).trans enough

theorem needLater {least : Nat} {most : Option Nat} (enough : (body.size + 1) * (p.rest.length + 1) ≤ fuel + 1)
    (shorter : q.rest.length < p.rest.length) : need (.repeated body least most) q ≤ fuel := by
  have less : (body.size + 1) * (q.rest.length + 1) ≤ (body.size + 1) * p.rest.length := Nat.mul_le_mul_left _ shorter
  rw [Nat.mul_add] at enough
  unfold need size
  omega

theorem reachesNext {o : Option Position} (next : o = some q) (reaches : Reaches n (k q)) : Reaches n (o >>= k) := by
  rw [next]
  exact reaches

theorem reachesIf {o : Option Position} {c : Prop} [Decidable c] (holds : c) (reaches : Reaches n o) :
    Reaches n (if c then o else none) := by
  rwa [if_pos holds]

theorem reachesOther {o : Option Position} {c : Prop} [Decidable c] (fails : ¬ c) (reaches : Reaches n o) :
    Reaches n (if c then none else o) := by
  rwa [if_neg fails]

theorem runLongest (fits : Fits ignoreCase r p q) (enough : need r p ≤ fuel) (stays : Stays k)
    (reaches : Reaches n (k q)) : Reaches n (run fuel ignoreCase r p k) := by
  induction fuel generalizing r p q k with
  | zero => exact absurd (needPos r p) (Nat.not_lt.mpr enough)
  | succ fuel ih =>
    cases fits with
    | empty => exact reaches
    | char next | any next | set next => exact reachesNext next reaches
    | lineStart start => exact reachesIf start reaches
    | lineEnd ended => exact reachesIf (List.isEmpty_iff.mpr ended) reaches
    | wordEdge edge => exact reachesIf (by simpa using edge) reaches
    | group inner => exact ih inner (needOf p enough) (fun q t => stays (p.grouped q _) t) reaches
    | reference again => exact reachesIf (List.isPrefixOf_iff_prefix.mpr again) reaches
    | sequence one other =>
      obtain ⟨forOne, forOther⟩ := needEach enough
      exact ih one forOne (runStays stays) (ih other (needBehind forOther one.shorter) stays reaches)
    | first fits =>
      simp only [run]
      exact longerFirst (ih fits (needEach enough).1 stays reaches)
    | second fits =>
      simp only [run]
      refine longerSecond (ih fits (needEach enough).2 stays reaches) fun t u found foundToo => ?_
      exact (runStays stays p t found).trans (runStays stays p u foundToo).symm
    | enough done =>
      simp only [run]
      split
      · exact reaches
      · next more =>
        have free := done.resolve_left more
        refine longerSecond (by rwa [if_pos free]) fun t u found foundToo => ?_
        rw [if_pos free] at foundToo
        exact (runStays (staysIf staysNone (runStays stays)) p t found).trans (stays p u foundToo).symm
    | again more once ahead rest =>
      simp only [run]
      rw [if_neg more]
      have shorter := once.progress ahead
      have onward := ih rest (needLater enough shorter) stays reaches
      exact longerFirst (ih once (needOf p enough) (staysIf staysNone (runStays stays)) (reachesOther ahead onward))
    | still more owed once here =>
      simp only [run]
      rw [if_neg more]
      refine longerSecond ?_ fun t u found foundToo => ?_
      · rw [if_neg owed]
        exact ih once (needOf p enough) (staysIf stays staysNone) (reachesIf here reaches)
      · rw [if_neg owed] at foundToo
        exact (runStays (staysIf staysNone (runStays stays)) p t found).trans
          (runStays (staysIf stays staysNone) p u foundToo).symm

end Longest

section Search

variable {m : Match} {before : Option Char} {index : Nat} {rest : Bytes}

abbrev start (before : Option Char) (index : Nat) (rest : Bytes) : Position := ⟨before, index, rest, []⟩

def Position.reached (p q : Position) : Match := ⟨p.index, q.index, q.groups⟩

structure Longest (ignoreCase : Bool) (r : Regex) (p q : Position) : Prop where
  fits : Fits ignoreCase r p q
  far : ∀ other, Fits ignoreCase r p other → other.index ≤ q.index

theorem runReaches (fits : Fits ignoreCase r p q) :
    Reaches q.index (run ((r.size + 2) * (p.rest.length + 3)) ignoreCase r p some) := by
  refine runLongest fits (Nat.mul_le_mul (by omega) (by omega)) ?_ ⟨q, rfl, le_rfl⟩
  rintro p t ⟨⟩
  rfl

theorem matchLongest (found : matchAt ignoreCase r p = some m) : ∃ q, Longest ignoreCase r p q ∧ m = p.reached q := by
  obtain ⟨q, ran, rfl⟩ := Option.map_eq_some_iff.mp found
  obtain ⟨_, fits, ⟨⟩⟩ := runSound ran
  refine ⟨q, ⟨fits, fun other fitsToo => ?_⟩, rfl⟩
  obtain ⟨best, ranToo, far⟩ := runReaches fitsToo
  cases ran.symm.trans ranToo
  exact far

theorem matchNone (missing : matchAt ignoreCase r p = none) (q : Position) : ¬ Fits ignoreCase r p q := by
  intro fits
  obtain ⟨best, ran, -⟩ := runReaches fits
  rw [matchAt, ran] at missing
  cases missing

theorem skipNone (p : Position) : p.skip 0 = p := by simp [Position.skip]

theorem skipMore (c : Char) (j : Nat) :
    (start before index (c :: rest)).skip (j + 1) = (start (some c) (index + 1) rest).skip j := by
  simp only [Position.skip, List.take_succ_cons, List.drop_succ_cons, List.getLast?_cons, Position.mk.injEq,
    and_true]
  refine ⟨?_, by omega⟩
  cases (rest.take j).getLast? <;> rfl

theorem findFirst (found : find? ignoreCase r before index rest = some m) : ∃ j ≤ rest.length, ∃ q,
    Longest ignoreCase r ((start before index rest).skip j) q
      ∧ m = ((start before index rest).skip j).reached q
      ∧ ∀ i < j, ∀ other, ¬ Fits ignoreCase r ((start before index rest).skip i) other := by
  induction rest generalizing before index with
  | nil =>
    obtain ⟨q, longest, same⟩ := matchLongest (by simpa [find?] using found)
    exact ⟨0, le_rfl, q, by rwa [skipNone], by rwa [skipNone], nofun⟩
  | cons c tail ih =>
    unfold find? at found
    cases here : matchAt ignoreCase r (start before index (c :: tail)) with
    | some m =>
      rw [here] at found
      cases found
      obtain ⟨q, longest, same⟩ := matchLongest here
      exact ⟨0, by simp, q, by rwa [skipNone], by rwa [skipNone], nofun⟩
    | none =>
      rw [here] at found
      obtain ⟨j, short, q, longest, same, earlier⟩ := ih found
      refine ⟨j + 1, Nat.succ_le_succ short, q, by rwa [skipMore], by rwa [skipMore], fun i less => ?_⟩
      cases i with
      | zero =>
        rw [skipNone]
        exact matchNone here
      | succ i =>
        rw [skipMore]
        exact earlier i (Nat.lt_of_succ_lt_succ less)

theorem findNone (missing : find? ignoreCase r before index rest = none) {i : Nat} (inside : i ≤ rest.length)
    (q : Position) : ¬ Fits ignoreCase r ((start before index rest).skip i) q := by
  induction rest generalizing before index i with
  | nil =>
    obtain rfl : i = 0 := by simpa using inside
    rw [skipNone]
    exact matchNone (by simpa [find?] using missing) q
  | cons c tail ih =>
    unfold find? at missing
    obtain ⟨here, later⟩ := Option.or_eq_none_iff.mp missing
    cases i with
    | zero =>
      rw [skipNone]
      exact matchNone here q
    | succ i =>
      rw [skipMore]
      exact ih later (Nat.le_of_succ_le_succ inside)

theorem occursIff {line : Bytes} : occursIn ignoreCase r line = true
    ↔ ∃ j ≤ line.length, ∃ q, Fits ignoreCase r ((start none 0 line).skip j) q := by
  unfold occursIn
  constructor
  · intro found
    obtain ⟨m, same⟩ := Option.isSome_iff_exists.mp found
    obtain ⟨j, short, q, longest, -⟩ := findFirst same
    exact ⟨j, short, q, longest.fits⟩
  · rintro ⟨j, short, q, fits⟩
    refine Option.isSome_iff_ne_none.mpr fun missing => ?_
    exact findNone missing short q fits

theorem skipSkip (p : Position) (m n : Nat) : (p.skip m).skip n = p.skip (m + n) := by
  simp [Position.skip, List.take_add, List.getLast?_append, Option.or_assoc, Nat.add_assoc]

theorem nextIff {accepts : Char → Bool} : p.next? accepts = some q ↔ ∃ c, accepts c ∧ [c] <+: p.rest ∧ q = p.skip 1 := by
  unfold Position.next?
  split
  · next c rest ahead =>
    rw [ahead]
    constructor
    · intro taken
      split at taken
      · next accepted =>
        cases taken
        exact ⟨c, accepted, by simp, by simp [Position.skip, ahead]⟩
      · cases taken
    · rintro ⟨d, accepted, same, rfl⟩
      obtain rfl : d = c := by simpa using same
      rw [if_pos accepted]
      simp [Position.skip, ahead]
  · next ended => simp [ended]

theorem charIff {c : Char} : Fits false (.char c) p q ↔ [c] <+: p.rest ∧ q = p.skip 1 := by
  constructor
  · intro fits
    cases fits with
    | char next => simpa [fold] using nextIff.mp next
  · intro ahead
    exact .char (nextIff.mpr ⟨c, by simp, ahead⟩)

theorem literalIff {cs : List Char} : Fits false (literal cs) p q ↔ cs <+: p.rest ∧ q = p.skip cs.length := by
  induction cs generalizing p with
  | nil =>
    rw [List.length_nil, skipNone]
    refine ⟨fun fits => ?_, fun ⟨_, same⟩ => same ▸ .empty⟩
    cases fits
    exact ⟨List.nil_prefix, rfl⟩
  | cons c cs ih =>
    have split : c :: cs <+: p.rest ↔ [c] <+: p.rest ∧ cs <+: p.rest.drop 1 := by
      cases p.rest <;> simp [List.cons_prefix_cons]
    constructor
    · intro fits
      cases fits with
      | sequence first second =>
        obtain ⟨one, rfl⟩ := charIff.mp first
        obtain ⟨others, rfl⟩ := ih.mp second
        exact ⟨split.mpr ⟨one, others⟩, by rw [skipSkip, Nat.add_comm, List.length_cons]⟩
    · rintro ⟨ahead, rfl⟩
      obtain ⟨one, others⟩ := split.mp ahead
      refine .sequence (charIff.mpr ⟨one, rfl⟩) (ih.mpr ⟨others, ?_⟩)
      rw [skipSkip, Nat.add_comm, List.length_cons]

theorem literalOccurs {cs : List Char} {line : Bytes} : occursIn false (literal cs) line = true ↔ cs <:+: line := by
  rw [occursIff]
  constructor
  · rintro ⟨j, -, q, fits⟩
    exact (literalIff.mp fits).1.isInfix.trans (List.drop_suffix j line).isInfix
  · rintro ⟨front, back, rfl⟩
    refine ⟨front.length, by simp, _, literalIff.mpr ⟨?_, rfl⟩⟩
    simp [Position.skip]

end Search

end ConstraintDesk.Machine.Regex
