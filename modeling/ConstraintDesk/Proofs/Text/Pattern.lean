import ConstraintDesk.Proofs.Text.Occurrence
import ConstraintDesk.Text.Basic
import Mathlib

/-! Patterns, and what a search for them cuts out of a text. Of the places where a text matches the first one counts,
and of the ways to match there the one that is tried first: a run of characters is tried at its full length, then
ever shorter, and the second of two alternatives behind all ways of the first. The search goes on behind each match,
so that a text falls into its matches and what stands in front of, between and behind them. -/
namespace ConstraintDesk.Text

def runs (p : Char → Bool) : List Char → List (List Char × List Char)
  | [] => [([], [])]
  | c :: r => (if p c then (runs p r).map fun run => (c :: run.1, run.2) else []) ++ [([], c :: r)]

theorem runsLongest (p : Char → Bool) (cs : List Char) :
    ∃ shorter, runs p cs = (cs.takeWhile p, cs.dropWhile p) :: shorter ∧
      ∀ run ∈ shorter, ∃ c rest, run.2 = c :: rest ∧ p c = true := by
  induction cs with
  | nil => exact ⟨[], rfl, by simp⟩
  | cons c r ih =>
    obtain ⟨shorter, same, each⟩ := ih
    rw [runs, List.takeWhile_cons, List.dropWhile_cons, same]
    by_cases own : p c = true
    · rw [if_pos own, if_pos own, if_pos own]
      refine ⟨_, rfl, fun run member => ?_⟩
      rcases List.mem_append.mp member with inside | last
      · obtain ⟨inner, there, rfl⟩ := List.mem_map.mp inside
        exact each inner there
      · rw [List.mem_singleton.mp last]
        exact ⟨c, r, rfl, own⟩
    · rw [if_neg own, if_neg own, if_neg own]
      exact ⟨[], rfl, by simp⟩

inductive Pattern where
  | text (part : List Char)
  | one (p : Char → Bool)
  | many (p : Char → Bool)
  | sequence (first second : Pattern)
  | group (inner : Pattern)

structure Way where
  taken : List Char
  held : Option (List Char)
  rest : List Char

def Way.join (first second : Way) : Way := ⟨first.taken ++ second.taken, first.held.or second.held, second.rest⟩

namespace Pattern

def ways : Pattern → List Char → List Way
  | text part, cs => ((dropPart? part cs).map fun rest => ⟨part, none, rest⟩).toList
  | one _, [] => []
  | one p, c :: r => if p c then [⟨[c], none, r⟩] else []
  | many p, cs => (runs p cs).map fun run => ⟨run.1, none, run.2⟩
  | sequence first second, cs => (ways first cs).flatMap fun w => (ways second w.rest).map w.join
  | group inner, cs => (ways inner cs).map fun w => { w with held := some w.taken }

def search? (p : Pattern) (cs : List Char) : Option Way := cs.tails.findSome? fun rest => (p.ways rest).head?

theorem firstOfSequence (first second : Pattern) (cs : List Char) :
    ((sequence first second).ways cs).head?
      = (first.ways cs).findSome? fun w => (second.ways w.rest).head?.map w.join := by
  rw [ways, List.head?_flatMap]
  simp only [List.head?_map]

end Pattern

def CutsOff (ways : List Char → List Way) (P : List Char → Prop) : Prop :=
  ∀ cs front back, (∃ w ∈ ways cs, w.taken = front ∧ w.rest = back) ↔ P front ∧ cs = front ++ back

theorem runsNone {p : Char → Bool} {cs back : List Char} : ([], back) ∈ runs p cs ↔ cs = back := by
  cases cs with
  | nil => simp [runs, eq_comm]
  | cons d r =>
    have longer : ([], back) ∉ if p d then (runs p r).map fun run => (d :: run.1, run.2) else [] := by
      split <;> simp
    rw [runs, List.mem_append, List.mem_singleton, Prod.mk.injEq, or_iff_right longer, and_iff_right rfl]
    exact eq_comm

theorem runsSome {p : Char → Bool} {c : Char} {cs front back : List Char} :
    (c :: front, back) ∈ runs p cs ↔ ∃ r, cs = c :: r ∧ p c = true ∧ (front, back) ∈ runs p r := by
  cases cs with
  | nil => simp [runs]
  | cons d r =>
    have nothing : (c :: front, back) ∉ [(([] : List Char), d :: r)] := by simp
    rw [runs, List.mem_append, or_iff_left nothing]
    split
    · next own =>
      simp only [List.mem_map, Prod.exists, Prod.mk.injEq, List.cons.injEq]
      constructor
      · rintro ⟨a, b, member, ⟨rfl, rfl⟩, rfl⟩
        exact ⟨r, ⟨rfl, rfl⟩, own, member⟩
      · rintro ⟨later, ⟨rfl, rfl⟩, -, member⟩
        exact ⟨front, back, member, ⟨rfl, rfl⟩, rfl⟩
    · next other =>
      refine iff_of_false List.not_mem_nil ?_
      rintro ⟨later, same, own, -⟩
      exact other ((List.cons.inj same).1 ▸ own)

theorem runsIff {p : Char → Bool} {cs front back : List Char} :
    (front, back) ∈ runs p cs ↔ (∀ c ∈ front, p c = true) ∧ cs = front ++ back := by
  induction front generalizing cs with
  | nil => simp [runsNone]
  | cons c front ih =>
    simp only [runsSome, ih, List.forall_mem_cons]
    constructor
    · rintro ⟨r, rfl, own, others, rfl⟩
      exact ⟨⟨own, others⟩, rfl⟩
    · rintro ⟨⟨own, others⟩, rfl⟩
      exact ⟨_, rfl, own, others, rfl⟩

section

variable {first second : List Char → List Way} {P Q : List Char → Prop}

theorem CutsOff.sequence (one : CutsOff first P) (two : CutsOff second Q) :
    CutsOff (fun cs => (first cs).flatMap fun w => (second w.rest).map w.join)
      fun cs => ∃ a b, P a ∧ Q b ∧ cs = a ++ b := by
  intro cs front back
  simp only [List.mem_flatMap, List.mem_map]
  constructor
  · rintro ⟨-, ⟨w, there, v, behind, rfl⟩, rfl, rfl⟩
    obtain ⟨own, rfl⟩ := (one cs w.taken w.rest).mp ⟨w, there, rfl, rfl⟩
    obtain ⟨others, same⟩ := (two w.rest v.taken v.rest).mp ⟨v, behind, rfl, rfl⟩
    refine ⟨⟨w.taken, v.taken, own, others, rfl⟩, ?_⟩
    rw [same, Way.join, List.append_assoc]
  · rintro ⟨⟨a, b, own, others, rfl⟩, rfl⟩
    obtain ⟨w, there, taken, rest⟩ := (one (a ++ b ++ back) a (b ++ back)).mpr ⟨own, List.append_assoc _ _ _⟩
    obtain ⟨v, behind, more, last⟩ := (two w.rest b back).mpr ⟨others, rest⟩
    exact ⟨w.join v, ⟨w, there, v, behind, rfl⟩, by rw [Way.join, taken, more], last⟩

theorem CutsOff.either (one : CutsOff first P) (two : CutsOff second Q) :
    CutsOff (fun cs => first cs ++ second cs) fun cs => P cs ∨ Q cs := by
  intro cs front back
  simp only [List.mem_append, or_and_right, exists_or, one cs, two cs]

end

namespace Pattern

def Fits : Pattern → List Char → Prop
  | text part, cs => cs = part
  | one p, cs => ∃ c, p c = true ∧ cs = [c]
  | many p, cs => ∀ c ∈ cs, p c = true
  | sequence first second, cs => ∃ a b, first.Fits a ∧ second.Fits b ∧ cs = a ++ b
  | group inner, cs => inner.Fits cs

theorem cutsOff (p : Pattern) : CutsOff p.ways p.Fits := by
  induction p with
  | text part =>
    intro cs front back
    have there : dropPart? part cs = some back ↔ cs = part ++ back :=
      ⟨dropPartSome, fun same => same ▸ dropPartAppend part back⟩
    simp only [ways, Option.mem_toList, Option.map_eq_some_iff, Fits]
    constructor
    · rintro ⟨-, ⟨rest, found, rfl⟩, rfl, rfl⟩
      exact ⟨rfl, dropPartSome found⟩
    · rintro ⟨rfl, same⟩
      exact ⟨_, ⟨back, there.mpr same, rfl⟩, rfl, rfl⟩
  | one p =>
    intro cs front back
    constructor
    · rintro ⟨w, member, rfl, rfl⟩
      cases cs with
      | nil => cases member
      | cons c r =>
        simp only [ways] at member
        split at member
        · next own =>
          obtain rfl := List.mem_singleton.mp member
          exact ⟨⟨c, own, rfl⟩, rfl⟩
        · cases member
    · rintro ⟨⟨c, own, rfl⟩, rfl⟩
      exact ⟨⟨[c], none, back⟩, by simp [ways, own], rfl, rfl⟩
  | many p =>
    intro cs front back
    simp only [ways, List.mem_map, Fits, ← runsIff]
    constructor
    · rintro ⟨-, ⟨run, member, rfl⟩, rfl, rfl⟩
      exact member
    · exact fun member => ⟨_, ⟨_, member, rfl⟩, rfl, rfl⟩
  | sequence first second one two => exact one.sequence two
  | group inner ih =>
    intro cs front back
    simp only [ways, List.mem_map, exists_exists_and_eq_and]
    exact ih cs front back

end Pattern

inductive Choice where
  | plain (p : Pattern)
  | sequence (first second : Choice)
  | either (first second : Choice)

namespace Choice

def ways : Choice → List Char → List Way
  | plain p, cs => p.ways cs
  | sequence first second, cs => (ways first cs).flatMap fun w => (ways second w.rest).map w.join
  | either first second, cs => ways first cs ++ ways second cs

def Fits : Choice → List Char → Prop
  | plain p, cs => p.Fits cs
  | sequence first second, cs => ∃ a b, first.Fits a ∧ second.Fits b ∧ cs = a ++ b
  | either first second, cs => first.Fits cs ∨ second.Fits cs

theorem cutsOff (p : Choice) : CutsOff p.ways p.Fits := by
  induction p with
  | plain p => exact p.cutsOff
  | sequence first second one two => exact one.sequence two
  | either first second one two => exact one.either two

def ahead? (p : Choice) (cs : List Char) : Option Way := (p.ways cs).head?.filter fun w => !w.taken.isEmpty

structure Ahead (p : Choice) (cs : List Char) (w : Way) : Prop where
  fits : p.Fits w.taken
  takes : w.taken ≠ []
  parts : cs = w.taken ++ w.rest

variable {p : Choice} {cs : List Char}

theorem aheadSome {w : Way} (found : p.ahead? cs = some w) : p.Ahead cs w := by
  obtain ⟨first, takes⟩ := Option.filter_eq_some_iff.mp found
  obtain ⟨fits, parts⟩ := (p.cutsOff cs w.taken w.rest).mp ⟨w, List.mem_of_head? first, rfl, rfl⟩
  exact ⟨fits, by simpa using takes, parts⟩

theorem restShorter {w : Way} (found : p.ahead? cs = some w) : w.rest.length < cs.length := by
  have ahead := aheadSome found
  rw [ahead.parts, List.length_append]
  exact Nat.lt_add_of_pos_left (List.length_pos_iff.mpr ahead.takes)

theorem aheadOfSolid (solid : ¬ p.Fits []) (cs : List Char) : p.ahead? cs = (p.ways cs).head? := by
  rw [ahead?]
  cases first : (p.ways cs).head? with
  | none => rfl
  | some w =>
    obtain ⟨own, -⟩ := (p.cutsOff cs w.taken w.rest).mp ⟨w, List.mem_of_head? first, rfl, rfl⟩
    have takes : w.taken ≠ [] := fun empty => solid (empty ▸ own)
    rw [Option.filter_some, if_pos (by simpa using takes)]

theorem aheadNone (solid : ¬ p.Fits []) (nothing : p.ahead? cs = none) {front : List Char} (fits : p.Fits front) :
    ¬ front <+: cs := by
  rintro ⟨back, same⟩
  obtain ⟨w, member, -⟩ := (p.cutsOff cs front back).mpr ⟨fits, same.symm⟩
  rw [aheadOfSolid solid, List.head?_eq_none_iff] at nothing
  exact List.ne_nil_of_mem member nothing

theorem firstOfEither (first second : Choice) (cs : List Char) :
    ((either first second).ways cs).head? = (first.ways cs).head?.or (second.ways cs).head? := by
  rw [ways, List.head?_append]

theorem restOfSequence (first second : Choice) (cs : List Char) :
    ((sequence first second).ways cs).head?.map Way.rest
      = (first.ways cs).findSome? fun w => (second.ways w.rest).head?.map Way.rest := by
  rw [ways, List.head?_flatMap, List.map_findSome?]
  refine congrArg (List.findSome? · _) (funext fun w => ?_)
  simp only [Function.comp_apply, List.head?_map, Option.map_map]
  rfl

theorem restOfText (part : List Char) (second : Choice) (cs : List Char) :
    ((sequence (plain (.text part)) second).ways cs).head?.map Way.rest
      = (dropPart? part cs).bind fun rest => (second.ways rest).head?.map Way.rest := by
  rw [restOfSequence, ways, Pattern.ways]
  cases dropPart? part cs with
  | none => rfl
  | some rest => exact List.findSome?_singleton

theorem restOfOne (p : Char → Bool) (second : Choice) (cs : List Char) :
    ((sequence (plain (.one p)) second).ways cs).head?.map Way.rest
      = if cs.head?.any p then (second.ways cs.tail).head?.map Way.rest else none := by
  rw [restOfSequence, ways]
  cases cs with
  | nil => rfl
  | cons c r =>
    rw [Pattern.ways, List.head?_cons, Option.any_some]
    split
    · exact List.findSome?_singleton
    · rfl

theorem firstOfMany (p : Char → Bool) (cs : List Char) :
    ((plain (.many p)).ways cs).head?.map Way.rest = some (cs.dropWhile p) := by
  obtain ⟨shorter, longest, -⟩ := runsLongest p cs
  rw [ways, Pattern.ways, longest]
  rfl

theorem restOfMany (p : Char → Bool) {second : Choice} (always : ∀ rest, second.ways rest ≠ []) (cs : List Char) :
    ((sequence (plain (.many p)) second).ways cs).head?.map Way.rest
      = (second.ways (cs.dropWhile p)).head?.map Way.rest := by
  obtain ⟨shorter, longest, -⟩ := runsLongest p cs
  obtain ⟨w, later, first⟩ := List.exists_cons_of_ne_nil (always (cs.dropWhile p))
  rw [restOfSequence, ways, Pattern.ways, longest, List.map_cons, List.findSome?_cons, first]
  rfl

end Choice

structure Cut where
  front : List Char
  behind : List (List Char × List Char)
  deriving DecidableEq

namespace Cut

def text (cut : Cut) : List Char := cut.front ++ cut.behind.flatMap fun part => part.1 ++ part.2

def removed (cut : Cut) : List (List Char) := cut.behind.map Prod.fst

def kept (cut : Cut) : List (List Char) := cut.front :: cut.behind.map Prod.snd

def joined (cut : Cut) : List Char := cut.kept.flatten

def keep (c : Char) (cut : Cut) : Cut := ⟨c :: cut.front, cut.behind⟩

def remove (taken : List Char) (cut : Cut) : Cut := ⟨[], (taken, cut.front) :: cut.behind⟩

theorem lengthText (cut : Cut) : cut.text.length = cut.joined.length + cut.removed.flatten.length := by
  obtain ⟨front, behind⟩ := cut
  induction behind with
  | nil => simp [text, joined, kept, removed]
  | cons part behind ih =>
    simp only [text, joined, kept, removed, List.length_append, List.flatMap_cons, List.map_cons,
      List.flatten_cons] at ih ⊢
    omega

end Cut

namespace Choice

def cut (p : Choice) (cs : List Char) : Cut :=
  match _found : p.ahead? cs with
  | some w => (p.cut w.rest).remove w.taken
  | none =>
    match cs with
    | [] => ⟨[], []⟩
    | c :: r => (p.cut r).keep c
termination_by cs.length
decreasing_by
  · exact restShorter _found
  · simp

variable {p : Choice}

theorem cutNil : p.cut [] = ⟨[], []⟩ := by
  rw [cut]
  split
  · next w found =>
    have ahead := aheadSome found
    exact absurd (List.append_eq_nil_iff.mp ahead.parts.symm).1 ahead.takes
  · rfl

theorem cutOfMatch {cs : List Char} {w : Way} (found : p.ahead? cs = some w) :
    p.cut cs = (p.cut w.rest).remove w.taken := by
  rw [cut]
  split
  · next v there =>
    cases found.symm.trans there
    rfl
  · next nothing => cases found.symm.trans nothing

theorem cutOfPlain {c : Char} {r : List Char} (plain : p.ahead? (c :: r) = none) :
    p.cut (c :: r) = (p.cut r).keep c := by
  rw [cut]
  split
  · next w found => cases plain.symm.trans found
  · rfl

@[elab_as_elim]
theorem byMatches (p : Choice) {motive : List Char → Prop} (nil : motive [])
    (found : ∀ cs w, p.ahead? cs = some w → motive w.rest → motive cs)
    (plain : ∀ c r, p.ahead? (c :: r) = none → motive r → motive (c :: r)) (cs : List Char) : motive cs := by
  induction length : cs.length using Nat.strong_induction_on generalizing cs with
  | _ n ih =>
    have shorter {r : List Char} (less : r.length < cs.length) : motive r := ih r.length (length ▸ less) r rfl
    cases ahead : p.ahead? cs with
    | some w => exact found cs w ahead (shorter (restShorter ahead))
    | none =>
      cases cs with
      | nil => exact nil
      | cons c r => exact plain c r ahead (shorter (by simp))

theorem textOfCut (p : Choice) (cs : List Char) : (p.cut cs).text = cs := by
  induction cs using byMatches p with
  | nil => rw [cutNil]; rfl
  | found cs w found ih =>
    rw [cutOfMatch found, (aheadSome found).parts]
    refine Eq.trans ?_ (congrArg (w.taken ++ ·) ih)
    simp [Cut.text, Cut.remove]
  | plain c r plain ih =>
    rw [cutOfPlain plain]
    exact congrArg (c :: ·) ih

theorem removedInside {cs m : List Char} (member : m ∈ (p.cut cs).removed) : m <:+: cs := by
  obtain ⟨part, inside, rfl⟩ := List.mem_map.mp member
  have whole := textOfCut p cs
  rw [Cut.text] at whole
  have own : part.1 <:+: (p.cut cs).behind.flatMap fun part => part.1 ++ part.2 :=
    (List.infix_append_of_infix_left List.infix_rfl).trans (List.infix_of_mem_flatten (List.mem_map_of_mem inside))
  exact whole ▸ List.infix_append_of_infix_right own

theorem removedFits (p : Choice) (cs : List Char) : ∀ m ∈ (p.cut cs).removed, p.Fits m := by
  induction cs using byMatches p with
  | nil => simp [cutNil, Cut.removed]
  | found cs w found ih =>
    rw [cutOfMatch found]
    exact List.forall_mem_cons.mpr ⟨(aheadSome found).fits, ih⟩
  | plain c r plain ih =>
    rw [cutOfPlain plain]
    exact ih

theorem keptFree (solid : ¬ p.Fits []) (cs : List Char) :
    ∀ kept ∈ (p.cut cs).kept, ∀ m, p.Fits m → ¬ m <:+: kept := by
  have empty (m : List Char) (fits : p.Fits m) : ¬ m <:+: [] :=
    fun inside => solid (List.eq_nil_of_infix_nil inside ▸ fits)
  induction cs using byMatches p with
  | nil => simpa [cutNil, Cut.kept] using empty
  | found cs w found ih =>
    rw [cutOfMatch found]
    exact List.forall_mem_cons.mpr ⟨empty, ih⟩
  | plain c r plain ih =>
    rw [cutOfPlain plain]
    obtain ⟨front, behind⟩ := List.forall_mem_cons.mp ih
    refine List.forall_mem_cons.mpr ⟨fun m fits inside => ?_, behind⟩
    rcases List.infix_cons_iff.mp inside with here | later
    · have start : (p.cut r).front <+: r := ⟨_, textOfCut p r⟩
      exact aheadNone solid plain fits (here.trans (List.cons_prefix_cons.mpr ⟨rfl, start⟩))
    · exact front m fits later

theorem cutOfFree {cs : List Char} (free : ∀ m, p.Fits m → ¬ m <:+: cs) : p.cut cs = ⟨cs, []⟩ := by
  have text := textOfCut p cs
  have fits := removedFits p cs
  generalize p.cut cs = parts at text fits ⊢
  obtain ⟨front, behind⟩ := parts
  cases behind with
  | nil => simpa [Cut.text] using text
  | cons part behind =>
    refine absurd ?_ (free part.1 (fits part.1 (by simp [Cut.removed])))
    exact ⟨front, part.2 ++ behind.flatMap fun part => part.1 ++ part.2, by rw [← text]; simp [Cut.text]⟩

end Choice
end ConstraintDesk.Text
