import ConstraintDesk.Proofs.Reasoner.Labels
import ConstraintDesk.Proofs.Reasoner.References

/-! The lines that cleaning hides. A label that is taken out of a message may be the place of a line, and the message
names a line by a reference, which is such a place with a colon right behind its number. Every reference goes with a
label, and one that is the place of its label is of use to a reader who no longer sees it. -/
namespace ConstraintDesk.Diagnostics

open Decimal (IsDigits isDigit Stops)
open Text (isBlank Choice Cut Way)

/-- A label that is the place of a line: the path, the digits of its number, as many as there are, and what stands
behind them. -/
structure IsPlace (label path digits behind : List Char) : Prop where
  dark : ∀ c ∈ path, isBlank c = false
  spelled : IsDigits digits
  stops : Stops behind
  parts : label = path ++ (".dummy:".toList ++ (digits ++ behind))
  ending : ∃ more colon blanks, (∀ c ∈ more, isLocationChar c = true) ∧ (colon = [] ∨ colon = [':']) ∧
    (∀ c ∈ blanks, isBlank c = true) ∧ behind = more ++ (colon ++ blanks)

theorem darkLocationChar {c : Char} (own : isLocationChar c = true) : isBlank c = false := by
  simp only [isLocationChar, Bool.or_eq_true, decide_eq_true_eq] at own
  rcases own with (digit | rfl) | rfl
  · exact Decimal.darkDigit digit
  · rfl
  · rfl

theorem IsPlace.darkFront {label path digits behind front rest : List Char} {c : Char}
    (place : IsPlace label path digits behind) (dark : isBlank c = false) (parts : label = front ++ c :: rest) :
    ∀ d ∈ front, isBlank d = false := by
  obtain ⟨more, colon, blanks, places, ends, blank, rfl⟩ := place.ending
  have core : ∀ d ∈ path ++ (".dummy:".toList ++ (digits ++ (more ++ colon))), isBlank d = false := by
    intro d member
    simp only [List.mem_append] at member
    rcases member with own | name | digit | other | last
    · exact place.dark d own
    · have all : ".dummy:".toList.all (fun c => !isBlank c) = true := by decide
      simpa using List.all_eq_true.mp all d name
    · exact Decimal.darkDigit (place.spelled.digits d digit)
    · exact darkLocationChar (places d other)
    · rcases ends with rfl | rfl
      · cases last
      · rw [List.mem_singleton.mp last]
        rfl
  have whole : path ++ (".dummy:".toList ++ (digits ++ (more ++ colon))) ++ blanks = front ++ c :: rest := by
    rw [← parts, place.parts]
    simp only [List.append_assoc]
  rcases List.append_eq_append_iff.mp whole with ⟨early, -, inside⟩ | ⟨later, same, -⟩
  · rw [blank c (inside ▸ List.mem_append_right _ List.mem_cons_self)] at dark
    cases dark
  · exact fun d member => core d (same ▸ List.mem_append_left _ member)

theorem IsPlace.cons {label path digits behind : List Char} (place : IsPlace label path digits behind) {c : Char}
    (dark : isBlank c = false) : IsPlace (c :: label) (c :: path) digits behind where
  dark := List.forall_mem_cons.mpr ⟨dark, place.dark⟩
  spelled := place.spelled
  stops := place.stops
  parts := congrArg (c :: ·) place.parts
  ending := place.ending

theorem IsPlace.label {label path digits behind : List Char} (place : IsPlace label path digits behind) :
    Label label := by
  obtain ⟨dark, spelled, -, parts, more, colon, blanks, places, ends, blank, rfl⟩ := place
  obtain ⟨digit, others, rfl⟩ := List.exists_cons_of_ne_nil spelled.notEmpty
  obtain ⟨number, later⟩ := List.forall_mem_cons.mp spelled.digits
  have all : ∀ c ∈ others ++ more, isLocationChar c = true := by
    intro c member
    rcases List.mem_append.mp member with own | other
    · simp [isLocationChar, later c own]
    · exact places c other
  have whole : digit :: others ++ (more ++ (colon ++ blanks)) = digit :: (others ++ more ++ (colon ++ blanks)) := by
    rw [List.cons_append, List.append_assoc]
  rw [parts, whole]
  exact .location dark number all ends blank

theorem noLetterBehind {label path digits behind : List Char} (place : IsPlace label path digits behind) :
    'd' ∉ "ummy:".toList ++ (digits ++ behind) := by
  obtain ⟨more, colon, blanks, places, ends, blank, rfl⟩ := place.ending
  simp only [List.mem_append, not_or]
  refine ⟨by decide, fun digit => ?_, fun other => ?_, ?_, fun last => ?_⟩
  · cases place.spelled.digits _ digit
  · cases places _ other
  · rcases ends with rfl | rfl <;> decide
  · cases blank _ last

theorem IsPlace.samePath {label path digits behind other others after : List Char}
    (place : IsPlace label path digits behind) (again : IsPlace label other others after) (shorter : path <+: other) :
    path = other := by
  obtain ⟨more, rfl⟩ := shorter
  have same := place.parts.symm.trans again.parts
  rw [List.append_assoc] at same
  have rest := List.append_cancel_left same
  match more with
  | [] => exact (List.append_nil path).symm
  | [c] => cases (List.cons.inj (List.cons.inj rest).2).1
  | c :: d :: more =>
    -- A second name would start behind the first letter of the first one.
    have later := (List.cons.inj (List.cons.inj rest).2).2
    have letter : 'd' ∈ more ++ (".dummy:".toList ++ (others ++ after)) :=
      List.mem_append_right _ (List.mem_append_left _ (by decide))
    exact absurd (Eq.subst (motive := ('d' ∈ ·)) later.symm letter) (noLetterBehind place)

theorem IsPlace.unique {label path digits behind other others after : List Char}
    (place : IsPlace label path digits behind) (again : IsPlace label other others after) :
    digits = others ∧ behind = after := by
  have paths : path = other := by
    rcases List.prefix_or_prefix_of_prefix ⟨_, place.parts.symm⟩ ⟨_, again.parts.symm⟩ with shorter | longer
    · exact place.samePath again shorter
    · exact (again.samePath place longer).symm
  have same := place.parts.symm.trans again.parts
  rw [paths] at same
  have rest := List.append_cancel_left (List.append_cancel_left same)
  have first := Decimal.takeDigits place.spelled.digits place.stops
  have second := Decimal.takeDigits again.spelled.digits again.stops
  rw [← rest] at second
  exact ⟨first.1.symm.trans second.1, first.2.symm.trans second.2⟩

theorem numberParts {s : List Char} (number : s.head?.any isDigit = true) :
    ∃ digits more, IsDigits digits ∧ (∀ c ∈ more, isLocationChar c = true) ∧
      s = digits ++ (more ++ s.dropWhile isLocationChar) ∧ Stops (more ++ s.dropWhile isLocationChar) := by
  have whole := List.takeWhile_append_dropWhile (p := isDigit) (l := s)
  have rest := List.takeWhile_append_dropWhile (p := isLocationChar) (l := s.dropWhile isDigit)
  have digits : ∀ c ∈ s.takeWhile isDigit, isDigit c = true := fun c member => List.mem_takeWhile_imp member
  have places : ∀ c ∈ s.takeWhile isDigit, isLocationChar c = true := by
    intro c member
    simp [isLocationChar, digits c member]
  have same : s.dropWhile isLocationChar = (s.dropWhile isDigit).dropWhile isLocationChar := by
    conv_lhs => rw [← whole, List.dropWhile_append_of_pos places]
  have nonempty : s.takeWhile isDigit ≠ [] := by
    cases s with
    | nil => cases number
    | cons d s =>
      have own : isDigit d = true := number
      rw [List.takeWhile_cons_of_pos own]
      exact List.cons_ne_nil _ _
  refine ⟨s.takeWhile isDigit, (s.dropWhile isDigit).takeWhile isLocationChar, ⟨nonempty, digits⟩,
    fun c member => List.mem_takeWhile_imp member, ?_, ?_⟩
  · rw [same, rest, whole]
  · rw [same, rest]
    intro c front
    have stopped := List.head?_dropWhile_not isDigit s
    rw [front] at stopped
    simpa using stopped

theorem locationParts {cs r : List Char} (found : dropLocation? cs = some r) :
    ∃ digits behind, cs = ".dummy:".toList ++ (digits ++ behind) ++ r ∧
      IsPlace (".dummy:".toList ++ (digits ++ behind)) [] digits behind := by
  obtain ⟨s, front, found⟩ := Option.bind_eq_some_iff.mp found
  rw [Text.dropPartSome front]
  split at found
  · next number =>
    obtain ⟨digits, more, spelled, places, whole, stops⟩ := numberParts number
    generalize s.dropWhile isLocationChar = rest at found whole stops
    obtain ⟨colon, later, ends, parts, last⟩ : ∃ colon later, (colon = [] ∨ colon = [':']) ∧ rest = colon ++ later ∧
        r = Text.trimStart later := by
      simp only [Option.some.injEq] at found
      split at found
      · next colon =>
        obtain ⟨later, rfl⟩ := List.head?_eq_some_iff.mp colon
        exact ⟨[':'], later, .inr rfl, rfl, found.symm⟩
      · exact ⟨[], rest, .inl rfl, rfl, found.symm⟩
    have blanks := List.takeWhile_append_dropWhile (p := isBlank) (l := later)
    have behind : rest = colon ++ later.takeWhile isBlank ++ r := by
      rw [parts, last, Text.trimStart, List.append_assoc, blanks]
    refine ⟨digits, more ++ (colon ++ later.takeWhile isBlank), ?_, List.forall_mem_nil _, spelled, ?_, rfl,
      more, colon, _, places, ends, fun c member => List.mem_takeWhile_imp member, rfl⟩
    · rw [whole, behind]
      simp only [List.append_assoc]
    · intro c front
      refine stops c ?_
      rw [behind, ← List.append_assoc, List.head?_append, front]
      rfl
  · cases found

theorem noLastLocation {cs : List Char} (nothing : dropLastLocation? cs = none) {front later : List Char}
    (parts : cs = front ++ later) (dark : ∀ c ∈ front, isBlank c = false) : dropLocation? later = .none := by
  induction cs generalizing front with
  | nil =>
    obtain ⟨-, rfl⟩ := List.append_eq_nil_iff.mp parts.symm
    rfl
  | cons c cs ih =>
    rw [dropLastLocation?] at nothing
    cases front with
    | nil =>
      obtain rfl : c :: cs = later := parts
      split at nothing
      · next blank => exact noLocationAtBlank blank cs
      · exact (Option.or_eq_none_iff.mp nothing).2
    | cons d front =>
      obtain ⟨rfl, rest⟩ := List.cons.inj parts
      obtain ⟨own, others⟩ := List.forall_mem_cons.mp dark
      rw [own] at nothing
      exact ih (Option.or_eq_none_iff.mp nothing).1 rest others

theorem lastLocationParts {cs r : List Char} (found : dropLastLocation? cs = some r) :
    ∃ label path digits behind, cs = label ++ r ∧ IsPlace label path digits behind ∧
      ∀ front later, cs = front ++ later → (∀ c ∈ front, isBlank c = false) → (dropLocation? later).isSome →
        front.length ≤ path.length := by
  induction cs with
  | nil => cases found
  | cons c cs ih =>
    rw [dropLastLocation?] at found
    split at found
    · cases found
    · next dark =>
      have own : isBlank c = false := by simpa using dark
      rcases Option.or_eq_some_iff.mp found with later | ⟨nothing, here⟩
      · obtain ⟨label, path, digits, behind, parts, place, last⟩ := ih later
        refine ⟨c :: label, c :: path, digits, behind, congrArg (c :: ·) parts, place.cons own, ?_⟩
        rintro (_ | ⟨d, front⟩) rest whole dark there
        · exact Nat.zero_le _
        · exact Nat.succ_le_succ (last front rest (List.cons.inj whole).2 (List.forall_mem_cons.mp dark).2 there)
      · obtain ⟨digits, behind, parts, place⟩ := locationParts here
        refine ⟨_, [], digits, behind, parts, place, ?_⟩
        rintro (_ | ⟨d, front⟩) rest whole dark there
        · exact Nat.zero_le _
        · rw [noLastLocation nothing (List.cons.inj whole).2 (List.forall_mem_cons.mp dark).2] at there
          cases there

/-- A label of the message stands over a place in it, and the number of the label is there or behind it. -/
inductive Covered (message front : List Char) : Prop
  | under {label digits behind : List Char} (before ahead more after : List Char)
      (member : label ∈ (labels.cut message).removed) (place : IsPlace label (ahead ++ more) digits behind)
      (parts : message = before ++ (label ++ after)) (start : front = before ++ ahead) : Covered message front

theorem Covered.cons {c : Char} {r front : List Char} (plain : labels.ahead? (c :: r) = none)
    (covered : Covered r front) : Covered (c :: r) (c :: front) := by
  obtain ⟨before, ahead, more, after, member, place, parts, start⟩ := covered
  refine .under (c :: before) ahead more after ?_ place (congrArg (c :: ·) parts) (congrArg (c :: ·) start)
  rw [Choice.cutOfPlain plain]
  exact member

theorem Covered.behind {cs front : List Char} {w : Way} (found : labels.ahead? cs = some w)
    (covered : Covered w.rest front) : Covered cs (w.taken ++ front) := by
  obtain ⟨before, ahead, more, after, member, place, parts, start⟩ := covered
  refine .under (w.taken ++ before) ahead more after ?_ place ?_ (by rw [start, List.append_assoc])
  · rw [Choice.cutOfMatch found]
    exact List.mem_cons_of_mem _ member
  · rw [(Choice.aheadSome found).parts, parts, List.append_assoc]

theorem labelInMark {digits : List Char} (own : IsDigits digits) : ∃ label, Label label ∧ label <+: mark digits := by
  have stops : Stops [] := by rintro c ⟨⟩
  have place : IsPlace ([] ++ (".dummy:".toList ++ (digits ++ []))) [] digits [] :=
    ⟨List.forall_mem_nil _, own, stops, rfl, [], [], [], List.forall_mem_nil _, .inl rfl, List.forall_mem_nil _, rfl⟩
  refine ⟨_, place.label, [':'], ?_⟩
  unfold mark
  generalize ".dummy:".toList = name
  simp

theorem noDotInName {cs rest front more : List Char} (found : dropName? cs = some rest)
    (taken : cs = front ++ '.' :: more ++ rest) : False := by
  obtain ⟨s, bare, rfl⟩ := Option.map_eq_some_iff.mp found
  have blanks := List.takeWhile_append_dropWhile (p := isBlank) (l := s)
  obtain ⟨name, known, parts⟩ : ∃ name ∈ names, cs = name ++ s := by
    rcases Option.or_eq_some_iff.mp bare with lower | ⟨-, upper⟩
    · exact ⟨_, List.mem_cons_self, Text.dropPartSome lower⟩
    · exact ⟨_, List.mem_cons_of_mem _ List.mem_cons_self, Text.dropPartSome upper⟩
  have same : front ++ '.' :: more = name ++ s.takeWhile isBlank := by
    have whole : front ++ '.' :: more ++ Text.trimStart s = name ++ s.takeWhile isBlank ++ Text.trimStart s := by
      rw [← taken, parts, Text.trimStart, List.append_assoc, blanks]
    exact List.append_cancel_right whole
  have dot : '.' ∈ name ++ s.takeWhile isBlank := same ▸ List.mem_append_right _ List.mem_cons_self
  have dotless : ∀ name ∈ names, '.' ∉ name := by decide
  rcases List.mem_append.mp dot with inside | blank
  · exact dotless name known inside
  · cases List.mem_takeWhile_imp blank

theorem coveredByMatch {cs front rest more : List Char} {w : Way} (found : labels.ahead? cs = some w)
    (taken : w.taken = front ++ '.' :: more) (parts : cs = front ++ rest) (here : (dropLocation? rest).isSome) :
    Covered cs front := by
  have ahead := Choice.aheadSome found
  have label : dropLabel? cs = some w.rest := by rw [← labelAhead, found]; rfl
  rcases Option.or_eq_some_iff.mp label with location | ⟨-, name⟩
  · obtain ⟨own, path, digits, behind, whole, place, last⟩ := lastLocationParts location
    obtain rfl : w.taken = own := List.append_cancel_right (ahead.parts.symm.trans whole)
    have bound := last front rest parts (place.darkFront rfl taken) here
    obtain ⟨later, rfl⟩ : front <+: path :=
      List.prefix_of_prefix_length_le ⟨_, taken.symm⟩ ⟨_, place.parts.symm⟩ bound
    refine .under [] front later w.rest ?_ place ahead.parts rfl
    rw [Choice.cutOfMatch found]
    exact List.mem_cons_self
  · exact (noDotInName name (taken ▸ ahead.parts)).elim

theorem markStarts (digits : List Char) : mark digits = '.' :: ("dummy:".toList ++ (digits ++ [':'])) := rfl

theorem locationAtMark {digits : List Char} (own : IsDigits digits) (back : List Char) :
    (dropLocation? (mark digits ++ back)).isSome := by
  obtain ⟨digit, more, rfl⟩ := List.exists_cons_of_ne_nil own.notEmpty
  have number := (List.forall_mem_cons.mp own.digits).1
  unfold dropLocation? mark
  generalize ".dummy:".toList = name
  rw [List.append_assoc, Text.dropPartAppend, Option.bind_some]
  exact Option.isSome_of_eq_some (if_pos number)

theorem referenceCovered {message front digits back : List Char} (own : IsDigits digits)
    (parts : message = front ++ (mark digits ++ back)) : Covered message front := by
  induction message using Choice.byMatches labels generalizing front with
  | nil =>
    rw [markStarts, List.cons_append] at parts
    cases (List.append_eq_nil_iff.mp parts.symm).2
  | found cs w found ih =>
    have whole := (Choice.aheadSome found).parts.symm.trans parts
    rcases List.append_eq_append_iff.mp whole with ⟨later, rfl, rest⟩ | ⟨inside, taken, rest⟩
    · exact (ih rest).behind found
    · cases inside with
      | nil =>
        rw [List.append_nil] at taken
        have covered : Covered w.rest [] := ih rest.symm
        rw [← taken, ← List.append_nil w.taken]
        exact covered.behind found
      | cons c more =>
        obtain rfl : '.' = c := (List.cons.inj rest).1
        exact coveredByMatch found taken parts (locationAtMark own back)
  | plain c r plain ih =>
    cases front with
    | nil =>
      obtain ⟨label, there, start⟩ := labelInMark own
      refine absurd (start.trans ?_) (Choice.aheadNone labelsSolid plain (labelIff.mpr there))
      exact ⟨back, parts.symm⟩
    | cons d front =>
      obtain ⟨rfl, rest⟩ := List.cons.inj parts
      exact (ih rest).cons plain

theorem sameMark {cs digits others : List Char} (own : IsDigits digits) (other : IsDigits others)
    (here : mark digits <+: cs) (there : mark others <+: cs) : digits = others :=
  Option.some.inj ((referenceIff.mpr ⟨own, here⟩).symm.trans (referenceIff.mpr ⟨other, there⟩))

theorem prefixOnLine {part cs : List Char} (unbroken : '\n' ∉ part) (ahead : part <+: cs) :
    part <+: cs.takeWhile Reference.unbroken := by
  have parts := List.takeWhile_append_dropWhile (p := Reference.unbroken) (l := cs)
  cases rest : cs.dropWhile Reference.unbroken with
  | nil =>
    rw [rest, List.append_nil] at parts
    rwa [parts]
  | cons c later =>
    have stop := List.head?_dropWhile_not Reference.unbroken cs
    rw [rest] at stop
    obtain rfl : c = '\n' := by simpa [Reference.unbroken] using stop
    rw [← parts, rest] at ahead
    exact Text.prefixSeparated unbroken ahead

theorem namesOfReference {message digits : List Char} (own : IsDigits digits) (inside : mark digits <:+: message) :
    ∃ others, Names message others := by
  obtain ⟨front, back, rfl⟩ := inside
  cases found : named? (front ++ mark digits ++ back) with
  | some others => exact ⟨others, namedIff.mp found⟩
  | none =>
    rw [← Reference.searchByLines, List.findSome?_eq_none_iff] at found
    have tail : mark digits ++ back ∈ (front ++ mark digits ++ back).tails :=
      (List.mem_tails _ _).mpr ⟨front, (List.append_assoc _ _ _).symm⟩
    have nowhere := lastReferenceNone.mp (found _ tail) [] digits
    exact absurd ⟨own, prefixOnLine (unbrokenMark own) (List.prefix_append _ _)⟩ nowhere

theorem namesParts {message digits : List Char} (names : Names message digits) :
    IsDigits digits ∧ ∃ front rest, message = front ++ rest ∧ mark digits <+: rest ∧
      ∀ path others, '\n' ∉ path → IsDigits others → path ++ mark others <+: rest → path = [] := by
  have found := namedIff.mpr names
  rw [← Reference.searchByLines, List.findSome?_eq_some_iff] at found
  obtain ⟨earlier, text, later, tails, last, -⟩ := found
  obtain ⟨start, whole⟩ := (List.mem_tails _ _).mp (tails ▸ List.mem_append_right earlier List.mem_cons_self)
  obtain ⟨before, ⟨own, behind⟩, longest⟩ := lastReferenceSome.mp last
  obtain ⟨rest, rfl⟩ : before <+: text := ((List.prefix_append _ _).trans behind).trans (List.takeWhile_prefix _)
  have line : ∀ c ∈ before, Reference.unbroken c = true := fun c member =>
    List.mem_takeWhile_imp (behind.subset (List.mem_append_left _ member))
  rw [List.takeWhile_append_of_pos line] at behind longest
  have parts : message = start ++ before ++ rest := by rw [← whole, List.append_assoc]
  refine ⟨own, start ++ before, rest, parts, ?_, fun path others unbroken other ahead => ?_⟩
  · exact ((List.prefix_append_right_inj before).mp behind).trans (List.takeWhile_prefix _)
  · have inLine := prefixOnLine (by simp [unbroken, unbrokenMark other]) ahead
    have refers : Refers (before ++ rest.takeWhile Reference.unbroken) (before ++ path) others :=
      ⟨other, by rw [List.append_assoc]; exact (List.prefix_append_right_inj before).mpr inLine⟩
    have bound := longest (before ++ path) others refers
    rw [List.length_append] at bound
    exact List.eq_nil_of_length_eq_zero (by omega)

def IsLineNumber (digits : List Char) : Prop := 1 ≤ Decimal.natOf digits ∧ Decimal.natOf digits ≤ 2 ^ 64 - 1

theorem namesLineIff {message : List Char} :
    (lineReference? message).isSome ↔ ∃ digits, Names message digits ∧ IsLineNumber digits := by
  rw [lineReferenceNamed]
  constructor
  · intro known
    obtain ⟨digits, found, number⟩ := Option.bind_eq_some_iff.mp (Option.eq_some_of_isSome known)
    exact ⟨digits, namedIff.mp found, (Option.ite_none_right_eq_some.mp number).1⟩
  · rintro ⟨digits, names, number⟩
    rw [namedIff.mpr names, Option.bind_some]
    exact Option.isSome_of_eq_some (if_pos number)

theorem markInPlace {label path digits behind : List Char} (place : IsPlace label path digits (':' :: behind)) :
    label = path ++ (mark digits ++ behind) := by
  have parts := place.parts
  unfold mark
  generalize ".dummy:".toList = name at parts ⊢
  rw [parts, List.append_assoc, List.append_assoc]
  rfl

theorem placeOfNamed {message digits : List Char} (names : Names message digits) :
    ∃ label ∈ (labels.cut message).removed, ∃ path own behind, IsPlace label path own behind ∧
      (behind.head? = some ':' → own = digits) := by
  obtain ⟨spelled, front, rest, parts, here, last⟩ := namesParts names
  have ⟨back, whole⟩ := here
  obtain @⟨label, own, behind, before, ahead, more, after, member, place, labelled, start⟩ :=
    referenceCovered spelled (parts.trans (congrArg (front ++ ·) whole.symm))
  refine ⟨label, member, ahead ++ more, own, behind, place, fun colon => ?_⟩
  obtain ⟨behind, rfl⟩ := List.head?_eq_some_iff.mp colon
  have same : rest = more ++ (mark own ++ (behind ++ after)) := by
    rw [parts, start, markInPlace place] at labelled
    simpa only [List.append_assoc, List.append_cancel_left_eq] using labelled
  have unbroken : '\n' ∉ more := by
    intro member
    cases place.dark _ (List.mem_append_right _ member)
  obtain rfl := last more _ unbroken place.spelled ⟨behind ++ after, by rw [same, List.append_assoc]⟩
  exact sameMark place.spelled spelled ⟨behind ++ after, same.symm⟩ here

theorem placeOf (path digits more colon blanks : List Char)
    (spelled : path.all (fun c => !isBlank c) && !digits.isEmpty && digits.all isDigit && more.all isLocationChar
      && (colon.isEmpty || colon = [':']) && blanks.all isBlank
      && !(more ++ (colon ++ blanks)).head?.any isDigit) :
    IsPlace (path ++ (".dummy:".toList ++ (digits ++ (more ++ (colon ++ blanks))))) path digits
      (more ++ (colon ++ blanks)) := by
  simp only [Bool.and_eq_true, Bool.or_eq_true, List.all_eq_true, Bool.not_eq_true', List.isEmpty_eq_false_iff,
    List.isEmpty_iff, decide_eq_true_eq] at spelled
  obtain ⟨⟨⟨⟨⟨⟨dark, nonempty⟩, digit⟩, place⟩, ends⟩, blank⟩, stops⟩ := spelled
  refine ⟨dark, ⟨nonempty, digit⟩, fun c front => ?_, rfl, more, colon, blanks, place, ends, blank, rfl⟩
  rw [front] at stops
  exact stops

theorem hiddenPlacesAreNamed (message : List Char) :
    ((lineReference? message).isSome ↔ ∃ deciding, Names message deciding ∧ IsLineNumber deciding) ∧
    (∀ label ∈ (labels.cut message).removed, ∀ path digits behind, IsPlace label path digits (':' :: behind) →
      ∃ deciding, Names message deciding) ∧
    ((∃ label ∈ (labels.cut message).removed, ∃ path digits behind, IsPlace label path digits behind) →
      (∀ label ∈ (labels.cut message).removed, ∀ path digits behind, IsPlace label path digits behind →
        behind.head? = some ':' ∧ IsLineNumber digits) →
      (lineReference? message).isSome) ∧
    ((lineReference? message).isSome →
      ∃ label ∈ (labels.cut message).removed, ∃ path digits behind, IsPlace label path digits behind) := by
  have decided : ∀ label ∈ (labels.cut message).removed, ∀ path digits behind,
      IsPlace label path digits (':' :: behind) → ∃ deciding, Names message deciding := by
    intro label member path digits behind place
    have inside : mark digits <:+: label := ⟨path, behind, by rw [markInPlace place, List.append_assoc]⟩
    exact namesOfReference place.spelled (inside.trans (Choice.removedInside member))
  refine ⟨namesLineIff, decided, ?_, fun found => ?_⟩
  · rintro ⟨label, member, path, digits, behind, place⟩ all
    obtain ⟨later, rfl⟩ := List.head?_eq_some_iff.mp (all label member path digits behind place).1
    obtain ⟨deciding, names⟩ := decided label member path digits later place
    obtain ⟨other, inside, front, own, rest, its, same⟩ := placeOfNamed names
    obtain ⟨colon, number⟩ := all other inside front own rest its
    exact namesLineIff.mpr ⟨deciding, names, same colon ▸ number⟩
  · obtain ⟨deciding, names, -⟩ := namesLineIff.mp found
    obtain ⟨label, member, path, own, behind, place, -⟩ := placeOfNamed names
    exact ⟨label, member, path, own, behind, place⟩

theorem placesWithColonsAreNamed :
    (labels.cut "in a.dummy:3:\tand b.dummy:4: x".toList).removed = ["a.dummy:3:\t".toList, "b.dummy:4: ".toList] ∧
      (lineReference? "in a.dummy:3:\tand b.dummy:4: x".toList).isSome := by
  have taken : (labels.cut "in a.dummy:3:\tand b.dummy:4: x".toList).removed
      = ["a.dummy:3:\t".toList, "b.dummy:4: ".toList] := by decide +kernel
  have first : IsPlace "a.dummy:3:\t".toList "a".toList ['3'] [':', '\t'] :=
    placeOf "a".toList ['3'] [] [':'] ['\t'] (by decide)
  have second : IsPlace "b.dummy:4: ".toList "b".toList ['4'] [':', ' '] :=
    placeOf "b".toList ['4'] [] [':'] [' '] (by decide)
  refine ⟨taken, (hiddenPlacesAreNamed _).2.2.1 ⟨_, by rw [taken]; exact List.mem_cons_self, _, _, _, first⟩ ?_⟩
  intro label member path digits behind place
  rw [taken] at member
  rcases List.mem_pair.mp member with rfl | rfl
  · obtain ⟨rfl, rfl⟩ := first.unique place
    exact ⟨rfl, by decide, by decide⟩
  · obtain ⟨rfl, rfl⟩ := second.unique place
    exact ⟨rfl, by decide, by decide⟩

theorem rangeHidesItsLine :
    ("model.dummy:4.5-7: ".toList ∈ (labels.cut "model.dummy:4.5-7: type error".toList).removed ∧
      IsPlace "model.dummy:4.5-7: ".toList "model".toList ['4'] ".5-7: ".toList ∧ IsLineNumber ['4'] ∧
      lineReference? "model.dummy:4.5-7: type error".toList = none) ∧
    ("a.dummy:3: ".toList ∈ (labels.cut "a.dummy:3: b.dummy:0: x".toList).removed ∧
      IsPlace "a.dummy:3: ".toList "a".toList ['3'] ": ".toList ∧ IsLineNumber ['3'] ∧
      lineReference? "a.dummy:3: b.dummy:0: x".toList = none) := by
  have range : IsPlace "model.dummy:4.5-7: ".toList "model".toList ['4'] ".5-7: ".toList :=
    placeOf "model".toList ['4'] ".5-7".toList [':'] [' '] (by decide)
  have line : IsPlace "a.dummy:3: ".toList "a".toList ['3'] ": ".toList :=
    placeOf "a".toList ['3'] [] [':'] [' '] (by decide)
  exact ⟨⟨by decide +kernel, range, ⟨by decide, by decide⟩, by decide +kernel⟩,
    by decide +kernel, line, ⟨by decide, by decide⟩, by decide +kernel⟩

end ConstraintDesk.Diagnostics
