import ConstraintDesk.Proofs.Decimal.Shortest
import ConstraintDesk.Proofs.Text.Lines
import ConstraintDesk.Proofs.Text.Occurrence
import ConstraintDesk.Proofs.Text.Words
import ConstraintDesk.Reasoner.Diagnostics

/-! Messages in blank margins. White space around a message changes neither the line that it names nor what
is left of it for the user. -/
namespace ConstraintDesk.Diagnostics

open Text (isBlank)

section Characters

variable {back : List Char} {p : Char → Bool} (unmet : ∀ c ∈ back, p c = false)

include unmet

theorem headBehind (cs : List Char) : (cs ++ back).head?.any p = cs.head?.any p := by
  cases cs with
  | nil =>
    cases back with
    | nil => rfl
    | cons b back => simpa using unmet b List.mem_cons_self
  | cons c r => rfl

theorem takeWhileBehind (cs : List Char) : (cs ++ back).takeWhile p = cs.takeWhile p := by
  induction cs with
  | nil =>
    cases back with
    | nil => rfl
    | cons b back => simp [unmet b List.mem_cons_self]
  | cons c r ih => simp [List.takeWhile_cons, ih]

theorem dropWhileBehind (cs : List Char) : (cs ++ back).dropWhile p = cs.dropWhile p ++ back := by
  induction cs with
  | nil =>
    cases back with
    | nil => rfl
    | cons b back => simp [unmet b List.mem_cons_self]
  | cons c r ih =>
    rw [List.cons_append, List.dropWhile_cons, List.dropWhile_cons, ih]
    split <;> rfl

end Characters

section Blanks

variable {back : List Char} (blank : ∀ c ∈ back, isBlank c = true)

include blank

theorem absentOfBlank {d : Char} (dark : isBlank d = false) : d ∉ back := by
  intro member
  rw [blank d member] at dark
  cases dark

theorem blankApart {part : List Char} (dark : part.all (fun c => !isBlank c) = true) : part.Disjoint back := by
  intro c inside behind
  have one := List.all_eq_true.mp dark c inside
  exact absentOfBlank blank (by simpa using one) behind

theorem noDigitOfBlank : ∀ c ∈ back, Decimal.isDigit c = false := by
  intro c member
  cases digit : Decimal.isDigit c with
  | false => rfl
  | true => exact absurd member (absentOfBlank blank (Decimal.darkDigit digit))

theorem noLocationCharOfBlank : ∀ c ∈ back, isLocationChar c = false := by
  intro c member
  have dot : c ≠ '.' := fun same => absentOfBlank blank (by decide) (same ▸ member)
  have dash : c ≠ '-' := fun same => absentOfBlank blank (by decide) (same ▸ member)
  simp [isLocationChar, noDigitOfBlank blank c member, dot, dash]

theorem colonBehind (cs : List Char) : (cs ++ back).head? = some ':' ↔ cs.head? = some ':' := by
  have colon : ':' ∉ back := absentOfBlank blank (by decide)
  cases cs with
  | nil =>
    cases back with
    | nil => rfl
    | cons b back =>
      have other : b ≠ ':' := fun same => colon (same ▸ List.mem_cons_self)
      simpa using other
  | cons c r => rfl

theorem referenceBehind (cs : List Char) : referenceAt? (cs ++ back) = referenceAt? cs := by
  have digits := noDigitOfBlank blank
  unfold referenceAt?
  rw [Text.dropPartApart (blankApart blank (by decide))]
  cases Text.dropPart? ".dummy:".toList cs with
  | none => rfl
  | some r =>
    simp only [Option.map_some, Option.bind_some, takeWhileBehind digits, dropWhileBehind digits,
      colonBehind blank]

theorem noReferenceOfBlank : lastReference? back = none := by
  induction back with
  | nil => rfl
  | cons b back ih =>
    have alone := referenceBehind blank []
    rw [lastReference?, ih fun c member => blank c (List.mem_cons_of_mem _ member), Option.none_or]
    exact alone

theorem lastReferenceBehind (cs : List Char) : lastReference? (cs ++ back) = lastReference? cs := by
  induction cs with
  | nil => exact noReferenceOfBlank blank
  | cons c r ih => rw [List.cons_append, lastReference?, lastReference?, ih, ← List.cons_append, referenceBehind blank]

end Blanks

def named? (message : List Char) : Option (List Char) := (Text.splitOn '\n' message).findSome? lastReference?

theorem namedBlankBehind {c : Char} (blank : isBlank c = true) (message : List Char) :
    named? (message ++ [c]) = named? message := by
  unfold named?
  by_cases feed : c = '\n'
  · subst feed
    rw [Text.splitOnBetween, List.findSome?_append]
    exact Option.or_none
  · obtain ⟨front, last, before, after⟩ := Text.splitOnConcat feed message
    have same := lastReferenceBehind (show ∀ d ∈ [c], isBlank d = true by simpa using blank) last
    rw [before, after, List.findSome?_append, List.findSome?_append, List.findSome?_singleton,
      List.findSome?_singleton, same]

theorem noReferenceAtBlank {c : Char} (blank : isBlank c = true) (r : List Char) : referenceAt? (c :: r) = none := by
  have other : '.' ≠ c := by
    rintro rfl
    cases blank
  have stops : Text.dropPart? ".dummy:".toList (c :: r) = none := if_neg other
  rw [referenceAt?, stops]
  rfl

theorem namedBlankAhead {c : Char} (blank : isBlank c = true) (message : List Char) :
    named? (c :: message) = named? message := by
  unfold named?
  rw [Text.splitOnCons]
  split
  · rfl
  · obtain ⟨piece, later, same⟩ := List.exists_cons_of_ne_nil (Text.splitOnSome '\n' message)
    rw [same]
    simp only [List.findSome?_cons, lastReference?, noReferenceAtBlank blank, Option.or_none]

section Margins

variable {front back : List Char} (ahead : ∀ c ∈ front, isBlank c = true) (behind : ∀ c ∈ back, isBlank c = true)

include behind in
theorem namedBehind (message : List Char) : named? (message ++ back) = named? message := by
  induction back generalizing message with
  | nil => rw [List.append_nil]
  | cons b back ih =>
    have later : ∀ c ∈ back, isBlank c = true := fun c member => behind c (List.mem_cons_of_mem _ member)
    rw [List.append_cons, ih later, namedBlankBehind (behind b List.mem_cons_self)]

include ahead in
theorem namedAhead (message : List Char) : named? (front ++ message) = named? message := by
  induction front with
  | nil => rfl
  | cons c front ih =>
    have later : ∀ d ∈ front, isBlank d = true := fun d member => ahead d (List.mem_cons_of_mem _ member)
    rw [List.cons_append, namedBlankAhead (ahead c List.mem_cons_self), ih later]

include ahead behind in
theorem lineReferenceMargins (message : List Char) :
    lineReference? (front ++ (message ++ back)) = lineReference? message := by
  have same : named? (front ++ (message ++ back)) = named? message := by
    rw [namedAhead ahead, namedBehind behind]
  unfold named? at same
  rw [lineReference?, lineReference?, same]

end Margins

def withBlanks (back rest : List Char) : List Char := if rest = [] then [] else rest ++ back

section Labels

variable {back : List Char} (blank : ∀ c ∈ back, isBlank c = true)

include blank

theorem trimStartWithBlanks (cs : List Char) :
    Text.trimStart (cs ++ back) = withBlanks back (Text.trimStart cs) := Text.trimStartBehind blank cs

theorem locationBehind (cs : List Char) :
    dropLocation? (cs ++ back) = (dropLocation? cs).map (withBlanks back) := by
  unfold dropLocation?
  rw [Text.dropPartApart (blankApart blank (by decide))]
  cases Text.dropPart? ".dummy:".toList cs with
  | none => rfl
  | some r =>
    simp only [Option.map_some, Option.bind_some, headBehind (noDigitOfBlank blank),
      dropWhileBehind (noLocationCharOfBlank blank), colonBehind blank]
    split
    · generalize r.dropWhile isLocationChar = rest
      rw [Option.map_some, ← trimStartWithBlanks blank]
      split
      · next colon =>
        obtain ⟨later, rfl⟩ := List.head?_eq_some_iff.mp colon
        rfl
      · rfl
    · rfl

theorem lastLocationBehind (cs : List Char) :
    dropLastLocation? (cs ++ back) = (dropLastLocation? cs).map (withBlanks back) := by
  induction cs with
  | nil =>
    cases back with
    | nil => rfl
    | cons b back => exact if_pos (blank b List.mem_cons_self)
  | cons c r ih =>
    rw [List.cons_append, dropLastLocation?, dropLastLocation?]
    split
    · rfl
    · rw [ih, ← List.cons_append, locationBehind blank, Option.map_or]

theorem labelBehind (cs : List Char) : dropLabel? (cs ++ back) = (dropLabel? cs).map (withBlanks back) := by
  have name : dropName? (cs ++ back) = (dropName? cs).map (withBlanks back) := by
    unfold dropName? dropBareName?
    rw [Text.dropPartApart (blankApart blank (by decide)), Text.dropPartApart (blankApart blank (by decide)),
      ← Option.map_or, Option.map_map, Option.map_map]
    exact congrArg (Option.map · _) (funext (trimStartWithBlanks blank))
  rw [dropLabel?, dropLabel?, lastLocationBehind blank, name, Option.map_or]

end Labels

theorem labelShortens {cs r : List Char} (label : dropLabel? cs = some r) : r.length < cs.length := by
  rcases Option.or_eq_some_iff.mp label with location | ⟨-, name⟩
  · exact lastLocationShortens location
  · obtain ⟨s, bare, rfl⟩ := Option.map_eq_some_iff.mp name
    exact nameShortens bare

theorem noLabelAtBlank {c : Char} (blank : isBlank c = true) (r : List Char) : dropLabel? (c :: r) = none := by
  have lower : 'd' ≠ c := by
    rintro rfl
    cases blank
  have upper : 'D' ≠ c := by
    rintro rfl
    cases blank
  have plain : Text.dropPart? "dummy:".toList (c :: r) = none := if_neg lower
  have capital : Text.dropPart? "Dummy:".toList (c :: r) = none := if_neg upper
  rw [dropLabel?, dropLastLocation?, if_pos blank, dropName?, dropBareName?, plain, capital]
  rfl

theorem noLocationInTail {c : Char} {r : List Char} (dark : Text.isBlank c = false)
    (h : dropLastLocation? (c :: r) = none) : dropLastLocation? r = none := by
  simp only [dropLastLocation?, dark] at h
  exact (Option.or_eq_none_iff.mp h).1

theorem noLocationBehindName {cs r : List Char} (named : dropBareName? cs = some r)
    (h : dropLastLocation? cs = none) (dark : r.head?.any Text.isBlank = false) :
    dropLastLocation? (Text.trimStart r) = none := by
  have same : Text.trimStart r = r := by
    cases r with
    | nil => rfl
    | cons c r => simp only [List.head?_cons, Option.any_some] at dark; simp [Text.trimStart, dark]
  rw [same]
  rcases Option.or_eq_some_iff.mp named with front | ⟨_, front⟩
  all_goals
    obtain rfl := Text.dropPartSome front
    iterate 6 replace h := noLocationInTail (by decide) h
    exact h

theorem dropLabelsFromEq (searched : Bool) (cs : List Char) :
    dropLabelsFrom searched cs =
      match if searched then none else dropLastLocation? cs with
      | some r => dropLabelsFrom false r
      | none =>
        match dropBareName? cs with
        | some r => dropLabelsFrom (!r.head?.any Text.isBlank) (Text.trimStart r)
        | none =>
          match cs with
          | [] => []
          | c :: r => c :: dropLabelsFrom (!Text.isBlank c) r := by
  rw [dropLabelsFrom]
  split
  · next r located => simp only [located]
  · next located =>
    split
    · next r named => simp only [located, named]
    · next named => split <;> simp only [located, named]

theorem searchedOnce {cs : List Char} (h : dropLastLocation? cs = none) :
    dropLabelsFrom true cs = dropLabelsFrom false cs := by
  rw [dropLabelsFromEq, dropLabelsFromEq false, h]
  rfl

theorem dropLabelsEq (cs : List Char) :
    dropLabels cs =
      match dropLabel? cs with
      | some r => dropLabels r
      | none =>
        match cs with
        | [] => []
        | c :: r => c :: dropLabels r := by
  unfold dropLabels
  rw [dropLabelsFromEq, dropLabel?, dropName?]
  cases located : dropLastLocation? cs with
  | some r => rfl
  | none =>
    cases named : dropBareName? cs with
    | some r =>
      cases dark : r.head?.any Text.isBlank with
      | true => simp [dark]
      | false => simpa [dark] using searchedOnce (noLocationBehindName named located dark)
    | none =>
      cases cs with
      | nil => rfl
      | cons c r =>
        cases dark : Text.isBlank c with
        | true => simp [dark]
        | false => simpa [dark] using searchedOnce (noLocationInTail dark located)

theorem dropLabelsNil : dropLabels [] = [] := by
  rw [dropLabelsEq]
  rfl

theorem dropLabelsOfLabel {cs r : List Char} (label : dropLabel? cs = some r) : dropLabels cs = dropLabels r := by
  rw [dropLabelsEq, label]

theorem dropLabelsOfPlain {c : Char} {r : List Char} (plain : dropLabel? (c :: r) = none) :
    dropLabels (c :: r) = c :: dropLabels r := by
  rw [dropLabelsEq, plain]

@[elab_as_elim]
theorem byLabels {motive : List Char → Prop} (nil : motive [])
    (label : ∀ cs r, dropLabel? cs = some r → motive r → motive cs)
    (plain : ∀ c r, dropLabel? (c :: r) = none → motive r → motive (c :: r)) (cs : List Char) : motive cs := by
  induction length : cs.length using Nat.strong_induction_on generalizing cs with
  | _ n ih =>
    have shorter {r : List Char} (less : r.length < cs.length) : motive r := ih r.length (length ▸ less) r rfl
    cases found : dropLabel? cs with
    | some r => exact label cs r found (shorter (labelShortens found))
    | none =>
      cases cs with
      | nil => exact nil
      | cons c r => exact plain c r found (shorter (by simp))

theorem dropLabelsAhead {front : List Char} (blank : ∀ c ∈ front, isBlank c = true) (cs : List Char) :
    dropLabels (front ++ cs) = front ++ dropLabels cs := by
  induction front with
  | nil => rfl
  | cons c front ih =>
    have later : ∀ d ∈ front, isBlank d = true := fun d member => blank d (List.mem_cons_of_mem _ member)
    rw [List.cons_append, dropLabelsOfPlain (noLabelAtBlank (blank c List.mem_cons_self) _), ih later, List.cons_append]

theorem dropLabelsBehind {back : List Char} (blank : ∀ c ∈ back, isBlank c = true) (cs : List Char) :
    dropLabels (cs ++ back) = dropLabels cs ++ back ∨ dropLabels (cs ++ back) = dropLabels cs := by
  induction cs using byLabels with
  | nil =>
    have kept := dropLabelsAhead blank []
    rw [List.append_nil, dropLabelsNil, List.append_nil] at kept
    exact Or.inl (by rw [List.nil_append, kept, dropLabelsNil, List.nil_append])
  | label cs r found ih =>
    have longer : dropLabel? (cs ++ back) = some (withBlanks back r) := by rw [labelBehind blank, found]; rfl
    rw [dropLabelsOfLabel longer, dropLabelsOfLabel found, withBlanks]
    split
    · next empty => exact Or.inr (by rw [empty])
    · exact ih
  | plain c r found ih =>
    have longer : dropLabel? (c :: (r ++ back)) = none := by rw [← List.cons_append, labelBehind blank, found]; rfl
    rw [List.cons_append, dropLabelsOfPlain longer, dropLabelsOfPlain found]
    rcases ih with kept | gone
    · exact Or.inl (by rw [kept, List.cons_append])
    · exact Or.inr (by rw [gone])

theorem cleanMargins {front back : List Char} (ahead : ∀ c ∈ front, isBlank c = true)
    (behind : ∀ c ∈ back, isBlank c = true) (message : List Char) :
    clean (front ++ (message ++ back)) = clean message := by
  rw [clean, clean, dropLabelsAhead ahead]
  rcases dropLabelsBehind behind message with kept | gone
  · rw [kept, Text.trimMargins ahead behind]
  · have nothing : ∀ c ∈ ([] : List Char), isBlank c = true := by simp
    have margin := Text.trimMargins ahead nothing (dropLabels message)
    rw [List.append_nil] at margin
    rw [gone, margin]

end ConstraintDesk.Diagnostics
