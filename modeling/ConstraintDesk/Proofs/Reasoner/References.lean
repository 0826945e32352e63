import ConstraintDesk.Proofs.Decimal.Spelling
import ConstraintDesk.Proofs.Reasoner.Messages
import ConstraintDesk.Proofs.Text.Occurrence
import ConstraintDesk.Proofs.Text.Pattern

/-! The line that a message names. Of the lines of the message the first one with a reference decides, and of
the references on it the last. -/
namespace ConstraintDesk
namespace Diagnostics

open Decimal (IsDigits isDigit)

def mark (digits : List Char) : List Char := ".dummy:".toList ++ (digits ++ [':'])

structure Refers (text before digits : List Char) : Prop where
  spelled : IsDigits digits
  place : before ++ mark digits <+: text

def LastRefers (text digits : List Char) : Prop :=
  ∃ before, Refers text before digits ∧
    ∀ other others, Refers text other others → other.length ≤ before.length

/-- The reference that decides which line a message names. -/
def Names (message digits : List Char) : Prop :=
  ∃ earlier line later, Text.splitOn '\n' message = earlier ++ line :: later ∧
    (∀ text ∈ earlier, ∀ before others, ¬ Refers text before others) ∧ LastRefers line digits

theorem referenceIff {cs digits : List Char} :
    referenceAt? cs = some digits ↔ IsDigits digits ∧ mark digits <+: cs := by
  unfold referenceAt? mark
  generalize ".dummy:".toList = label
  rw [Option.bind_eq_some_iff]
  constructor
  · rintro ⟨r, front, found⟩
    obtain rfl := Text.dropPartSome front
    simp only [Bool.and_eq_true, Bool.not_eq_true', List.isEmpty_eq_false_iff, decide_eq_true_eq,
      Option.ite_none_right_eq_some, Option.some.injEq] at found
    obtain ⟨⟨nonempty, colon⟩, rfl⟩ := found
    obtain ⟨after, ends⟩ := List.head?_eq_some_iff.mp colon
    have parts : r.takeWhile isDigit ++ ':' :: after = r := by rw [← ends, List.takeWhile_append_dropWhile]
    refine ⟨⟨nonempty, fun c member => List.mem_takeWhile_imp member⟩, after, ?_⟩
    rw [List.append_assoc, List.append_assoc, List.singleton_append, parts]
  · rintro ⟨own, after, rfl⟩
    have colon : Decimal.Stops (':' :: after) := fun c front => by cases front; rfl
    have ends := Decimal.takeDigits own.digits colon
    refine ⟨digits ++ ':' :: after, ?_, ?_⟩
    · rw [List.append_assoc, List.append_assoc, List.singleton_append, Text.dropPartAppend]
    · simp [ends.1, ends.2, own.notEmpty]

theorem refersHere {cs digits : List Char} : Refers cs [] digits ↔ referenceAt? cs = some digits := by
  rw [referenceIff]
  exact ⟨fun refers => ⟨refers.spelled, refers.place⟩, fun found => ⟨found.1, found.2⟩⟩

theorem refersCons {c d : Char} {cs before digits : List Char} :
    Refers (c :: cs) (d :: before) digits ↔ d = c ∧ Refers cs before digits := by
  constructor
  · rintro ⟨own, place⟩
    obtain ⟨same, later⟩ := List.cons_prefix_cons.mp place
    exact ⟨same, own, later⟩
  · rintro ⟨rfl, own, place⟩
    exact ⟨own, List.cons_prefix_cons.mpr ⟨rfl, place⟩⟩

theorem notRefersNil {before digits : List Char} : ¬ Refers [] before digits := by
  rintro ⟨-, place⟩
  have empty := (List.append_eq_nil_iff.mp (List.prefix_nil.mp place)).2
  have colon := (List.append_eq_nil_iff.mp (List.append_eq_nil_iff.mp empty).2).2
  cases colon

theorem lastReferenceNone {cs : List Char} :
    lastReference? cs = none ↔ ∀ before digits, ¬ Refers cs before digits := by
  induction cs with
  | nil => exact iff_of_true rfl fun _ _ => notRefersNil
  | cons c cs ih =>
    rw [lastReference?, Option.or_eq_none_iff, ih]
    constructor
    · rintro ⟨later, here⟩ before digits refers
      cases before with
      | nil =>
        rw [refersHere, here] at refers
        cases refers
      | cons d before => exact later before digits (refersCons.mp refers).2
    · intro absent
      refine ⟨fun before digits refers => absent (c :: before) digits (refersCons.mpr ⟨rfl, refers⟩), ?_⟩
      exact Option.eq_none_iff_forall_ne_some.mpr fun digits here => absent [] digits (refersHere.mpr here)

theorem lastReferenceSome {cs digits : List Char} : lastReference? cs = some digits ↔ LastRefers cs digits := by
  induction cs generalizing digits with
  | nil => exact iff_of_false (by simp [lastReference?]) fun ⟨_, refers, _⟩ => notRefersNil refers
  | cons c cs ih =>
    rw [lastReference?, Option.or_eq_some_iff]
    constructor
    · rintro (later | ⟨nothing, here⟩)
      · obtain ⟨before, refers, last⟩ := ih.mp later
        refine ⟨c :: before, refersCons.mpr ⟨rfl, refers⟩, fun other others more => ?_⟩
        cases other with
        | nil => simp
        | cons d other => simpa using last other others (refersCons.mp more).2
      · refine ⟨[], refersHere.mpr here, fun other others more => ?_⟩
        cases other with
        | nil => rfl
        | cons d other => exact absurd (refersCons.mp more).2 (lastReferenceNone.mp nothing other others)
    · rintro ⟨before, refers, last⟩
      cases before with
      | cons d before =>
        obtain ⟨rfl, inside⟩ := refersCons.mp refers
        refine .inl (ih.mpr ⟨before, inside, fun other others more => ?_⟩)
        simpa using last (d :: other) others (refersCons.mpr ⟨rfl, more⟩)
      | nil =>
        refine .inr ⟨lastReferenceNone.mpr fun other others more => ?_, refersHere.mp refers⟩
        simpa using last (c :: other) others (refersCons.mpr ⟨rfl, more⟩)

theorem namedIff {message digits : List Char} : named? message = some digits ↔ Names message digits := by
  unfold named? Names
  simp only [List.findSome?_eq_some_iff, lastReferenceSome, lastReferenceNone]
  constructor
  · rintro ⟨earlier, line, later, split, last, absent⟩
    exact ⟨earlier, line, later, split, absent, last⟩
  · rintro ⟨earlier, line, later, split, absent, last⟩
    exact ⟨earlier, line, later, split, last, absent⟩

theorem unbrokenMark {digits : List Char} (own : IsDigits digits) : '\n' ∉ mark digits := by
  intro member
  rcases List.mem_append.mp member with label | behind
  · exact absurd label (by decide)
  · rcases List.mem_append.mp behind with digit | colon
    · cases own.digits _ digit
    · exact absurd colon (by decide)

theorem referenceInFront {line : List Char} (rest : List Char) :
    referenceAt? (line ++ '\n' :: rest) = referenceAt? line := by
  refine Option.ext fun digits => ?_
  rw [referenceIff, referenceIff]
  refine and_congr_right fun own => ⟨fun ahead => ?_, fun ahead => ahead.trans (List.prefix_append _ _)⟩
  exact Text.prefixSeparated (unbrokenMark own) ahead

namespace Reference

open Text (Pattern Way)

def unbroken (c : Char) : Bool := c ≠ '\n'

def closing : Pattern := .sequence (.text [':']) (.many unbroken)

def number : Pattern := .group (.sequence (.one isDigit) (.many isDigit))

def labelled : Pattern := .sequence (.text ".dummy:".toList) (.sequence number closing)

/-- The pattern of a message that names a line: `.*\.dummy:([0-9]+):.*`. -/
def pattern : Pattern := .sequence (.many unbroken) labelled

theorem closingThere (after : List Char) : ∃ w, (closing.ways (':' :: after)).head? = some w ∧ w.held = none := by
  obtain ⟨shorter, same, -⟩ := Text.runsLongest unbroken after
  have colon : Text.dropPart? [':'] (':' :: after) = some after := Text.dropPartAppend [':'] after
  rw [closing, Pattern.firstOfSequence, Pattern.ways, colon]
  simp only [Option.map_some, Option.toList_some, List.findSome?_singleton, Pattern.ways, same, List.map_cons,
    List.head?_cons]
  exact ⟨_, rfl, rfl⟩

theorem closingMissing {c : Char} (other : c ≠ ':') (rest : List Char) : closing.ways (c :: rest) = [] := by
  have colon : Text.dropPart? [':'] (c :: rest) = none := if_neg other.symm
  rw [closing, Pattern.ways, Pattern.ways, colon]
  rfl

theorem numberThere {c : Char} (digit : isDigit c = true) (r : List Char) :
    number.ways (c :: r) = (Text.runs isDigit r).map fun run => ⟨c :: run.1, some (c :: run.1), run.2⟩ := by
  simp only [number, Pattern.ways, digit, if_true, List.flatMap_singleton, List.map_map]
  rfl

theorem numberMissing {cs : List Char} (empty : cs.takeWhile isDigit = []) : number.ways cs = [] := by
  cases cs with
  | nil => rfl
  | cons c r =>
    have other : ¬ isDigit c = true := fun digit => by simp [digit] at empty
    simp only [number, Pattern.ways, if_neg other, List.flatMap_nil, List.map_nil]

theorem numberFirst (r : List Char) :
    (((Pattern.sequence number closing).ways r).head?.map Way.held)
      = if !(r.takeWhile isDigit).isEmpty && (r.dropWhile isDigit).head? = some ':'
        then some (some (r.takeWhile isDigit)) else none := by
  rw [Pattern.firstOfSequence]
  by_cases empty : r.takeWhile isDigit = []
  · rw [numberMissing empty, empty]
    rfl
  cases r with
  | nil => exact absurd rfl empty
  | cons c r =>
    have digit : isDigit c = true := by_contra fun other => empty (by simp [other])
    obtain ⟨shorter, longest, each⟩ := Text.runsLongest isDigit r
    rw [numberThere digit, longest, List.map_cons, List.findSome?_cons, List.takeWhile_cons, List.dropWhile_cons,
      if_pos digit, if_pos digit]
    -- A shorter run ends before a digit, and that is no colon.
    have later : (shorter.map fun run => (⟨c :: run.1, some (c :: run.1), run.2⟩ : Way)).findSome?
        (fun w => (closing.ways w.rest).head?.map w.join) = none := by
      rw [List.findSome?_eq_none_iff]
      intro w member
      obtain ⟨run, inside, rfl⟩ := List.mem_map.mp member
      obtain ⟨d, rest, same, digit⟩ := each run inside
      have other : d ≠ ':' := by
        rintro rfl
        cases digit
      simp only [same, closingMissing other, List.head?_nil, Option.map_none]
    rw [later]
    cases behind : r.dropWhile isDigit with
    | nil => rfl
    | cons d rest =>
      by_cases colon : d = ':'
      · subst colon
        obtain ⟨w, first, held⟩ := closingThere rest
        simp [first, held, Way.join]
      · simp [closingMissing colon, colon]

theorem labelledFirst (cs : List Char) :
    (labelled.ways cs).head?.map Way.held = (referenceAt? cs).map some := by
  unfold labelled referenceAt?
  generalize ".dummy:".toList = label
  rw [Pattern.firstOfSequence, Pattern.ways]
  cases Text.dropPart? label cs with
  | none => rfl
  | some r =>
    have number := numberFirst r
    simp only [Option.map_some, Option.toList_some, List.findSome?_singleton, Option.bind_some, Option.map_map]
    have held : Way.held ∘ (⟨label, none, r⟩ : Way).join = Way.held := funext fun w => Option.none_or
    rw [held, number]
    split <;> rfl

theorem referenceOnLine (cs : List Char) : referenceAt? (cs.takeWhile unbroken) = referenceAt? cs := by
  have parts := List.takeWhile_append_dropWhile (p := unbroken) (l := cs)
  cases rest : cs.dropWhile unbroken with
  | nil => rw [rest, List.append_nil] at parts; rw [parts]
  | cons c later =>
    have stop : ¬ unbroken c = true := by
      have front := List.head?_dropWhile_not unbroken cs
      rw [rest] at front
      simpa using front
    obtain rfl : c = '\n' := by simpa [unbroken] using stop
    rw [rest] at parts
    exact (referenceInFront later).symm.trans (congrArg referenceAt? parts)

theorem patternFirst (cs : List Char) :
    (pattern.ways cs).head?.map Way.held = (lastReference? (cs.takeWhile unbroken)).map some := by
  have runs : (pattern.ways cs).head?.map Way.held
      = (Text.runs unbroken cs).findSome? fun run => (referenceAt? run.2).map some := by
    rw [pattern, Pattern.firstOfSequence, Pattern.ways, List.findSome?_map, List.map_findSome?]
    refine congrArg (List.findSome? · _) (funext fun run => ?_)
    rw [← labelledFirst]
    simp only [Function.comp_apply, Option.map_map]
    exact congrArg (Option.map · _) (funext fun w => Option.none_or)
  rw [runs]
  clear runs
  induction cs with
  | nil => rfl
  | cons c r ih =>
    have here := referenceOnLine (c :: r)
    rw [List.takeWhile_cons] at here ⊢
    rw [Text.runs, List.findSome?_append, List.findSome?_singleton, ← here]
    split
    · have longer : ((Text.runs unbroken r).map fun run => (c :: run.1, run.2)).findSome?
          (fun run => (referenceAt? run.2).map some) = (lastReference? (r.takeWhile unbroken)).map some :=
        List.findSome?_map.trans ih
      rw [longer, lastReference?, Option.map_or]
    · rfl

theorem searchByLines (cs : List Char) :
    cs.tails.findSome? (fun rest => lastReference? (rest.takeWhile unbroken)) = named? cs := by
  unfold named?
  induction cs with
  | nil => rfl
  | cons c r ih =>
    obtain ⟨later, split⟩ : ∃ later, Text.splitOn '\n' r = r.takeWhile unbroken :: later := Text.splitOnHead '\n' r
    rw [List.tails_cons, List.findSome?_cons, ih, Text.splitOnCons, split, List.takeWhile_cons]
    by_cases feed : c = '\n'
    · subst feed
      rfl
    · have own : unbroken c = true := by simpa [unbroken] using feed
      rw [if_pos own, if_neg feed, List.findSome?_cons, List.findSome?_cons, lastReference?]
      cases lastReference? (r.takeWhile unbroken) with
      | none => rfl
      | some digits => rfl

theorem searchNames (message : List Char) : (pattern.search? message).bind Way.held = named? message := by
  have held : (pattern.search? message).map Way.held = (named? message).map some := by
    rw [Pattern.search?, List.map_findSome?, ← searchByLines, List.map_findSome?]
    exact congrArg (List.findSome? · _) (funext patternFirst)
  cases found : named? message with
  | none =>
    rw [found] at held
    rw [Option.map_eq_none_iff.mp held]
    rfl
  | some digits =>
    rw [found] at held
    obtain ⟨w, there, same⟩ := Option.map_eq_some_iff.mp held
    rw [there]
    exact same

end Reference

theorem lineReferenceNamed (message : List Char) :
    lineReference? message = (named? message).bind fun digits =>
      if 1 ≤ Decimal.natOf digits ∧ Decimal.natOf digits ≤ 2 ^ 64 - 1 then some (Decimal.natOf digits - 1) else none := by
  have bounds (n : Nat) : (decide (1 ≤ n) && decide (n < 2 ^ 64)) = true ↔ 1 ≤ n ∧ n ≤ 2 ^ 64 - 1 := by
    rw [Bool.and_eq_true, decide_eq_true_eq, decide_eq_true_eq]
    omega
  unfold lineReference?
  exact congrArg (Option.bind (named? message)) (funext fun digits => if_congr (bounds _) rfl rfl)

end Diagnostics

open Diagnostics (Names lineReference? named? namedIff lineReferenceNamed Reference.pattern Reference.searchNames)

theorem lineReferenceIsExact (message : List Char) :
    (∀ digits : List Char, (Reference.pattern.search? message).bind Text.Way.held = some digits ↔ Names message digits) ∧
    (∀ n : Nat, lineReference? message = some n ↔
      ∃ digits, Names message digits ∧ Decimal.natOf digits = n + 1 ∧ n + 1 ≤ 2 ^ 64 - 1) ∧
    (lineReference? message = none ↔
      ∀ digits, Names message digits → Decimal.natOf digits = 0 ∨ 2 ^ 64 - 1 < Decimal.natOf digits) := by
  refine ⟨fun digits => by rw [Reference.searchNames, namedIff], fun n => ?_, ?_⟩
  · rw [lineReferenceNamed, Option.bind_eq_some_iff]
    refine exists_congr fun digits => ?_
    rw [namedIff, Option.ite_none_right_eq_some, Option.some.injEq]
    refine and_congr_right fun _ => ?_
    omega
  · rw [lineReferenceNamed, Option.bind_eq_none_iff]
    refine forall_congr' fun digits => ?_
    rw [namedIff, ite_eq_right_iff]
    refine imp_congr_right fun _ => ?_
    simp only [reduceCtorEq, imp_false]
    omega

theorem lastReferenceOfTheFirstLine :
    lineReference? "no line\na.dummy:3: b.dummy:7: c\nd.dummy:1:".toList = some 6 ∧
    lineReference? "a.dummy:3: b.dummy:0:\nc.dummy:1:".toList = none := by
  constructor
  · have names := ((lineReferenceIsExact "no line\na.dummy:3: b.dummy:7: c\nd.dummy:1:".toList).1 ['7']).mp
      (by decide +kernel)
    exact ((lineReferenceIsExact _).2.1 6).mpr ⟨['7'], names, by decide, by decide⟩
  · refine (lineReferenceIsExact _).2.2.mpr fun digits names => .inl ?_
    have found : (Reference.pattern.search? "a.dummy:3: b.dummy:0:\nc.dummy:1:".toList).bind Text.Way.held
        = some ['0'] := by decide +kernel
    obtain rfl := Option.some.inj ((((lineReferenceIsExact _).1 digits).mpr names).symm.trans found)
    rfl

end ConstraintDesk
