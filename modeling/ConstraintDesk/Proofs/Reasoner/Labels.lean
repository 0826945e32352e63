import ConstraintDesk.Proofs.Reasoner.Messages
import ConstraintDesk.Proofs.Text.Pattern

/-! The labels of a message. What is cleaned off a message are the matches of one pattern, each of them a location or
a name of the solver with the white space behind it, and no label is left in what stands between them. -/
namespace ConstraintDesk.Diagnostics

open Text (isBlank Choice Cut Way)

inductive Label : List Char → Prop
  | location {path more colon blanks : List Char} {digit : Char} (dark : ∀ c ∈ path, isBlank c = false)
      (number : Decimal.isDigit digit = true) (place : ∀ c ∈ more, isLocationChar c = true)
      (ends : colon = [] ∨ colon = [':']) (blank : ∀ c ∈ blanks, isBlank c = true) :
      Label (path ++ (".dummy:".toList ++ (digit :: (more ++ (colon ++ blanks)))))
  | name {initial : Char} {blanks : List Char} (known : initial = 'd' ∨ initial = 'D')
      (blank : ∀ c ∈ blanks, isBlank c = true) : Label (initial :: ("ummy:".toList ++ blanks))

def isDark (c : Char) : Bool := !isBlank c

def isInitial (c : Char) : Bool := c = 'd' || c = 'D'

def ending : Choice := .sequence (.either (.plain (.text [':'])) (.plain (.text []))) (.plain (.many isBlank))

def place : Choice :=
  .sequence (.plain (.text ".dummy:".toList))
    (.sequence (.plain (.one Decimal.isDigit)) (.sequence (.plain (.many isLocationChar)) ending))

def solverName : Choice :=
  .sequence (.plain (.one isInitial)) (.sequence (.plain (.text "ummy:".toList)) (.plain (.many isBlank)))

/-- The pattern of what means nothing to the user: `\S*\.dummy:[0-9][0-9.\-]*:?\s*|[dD]ummy:\s*`. -/
def labels : Choice := .either (.sequence (.plain (.many isDark)) place) solverName

theorem labelIff {cs : List Char} : labels.Fits cs ↔ Label cs := by
  simp only [labels, place, ending, solverName, Choice.Fits, Text.Pattern.Fits]
  constructor
  · rintro (⟨path, -, dark, ⟨-, -, rfl, ⟨-, -, ⟨digit, number, rfl⟩, ⟨more, -, place, ⟨colon, blanks, ends, blank, rfl⟩,
      rfl⟩, rfl⟩, rfl⟩, rfl⟩ | ⟨-, -, ⟨initial, known, rfl⟩, ⟨-, blanks, rfl, blank, rfl⟩, rfl⟩)
    · have label : Label (path ++ (".dummy:".toList ++ (digit :: (more ++ (colon ++ blanks))))) :=
        .location (by simpa [isDark] using dark) number place ends.symm blank
      exact label
    · exact .name (by simpa [isInitial] using known) blank
  · rintro (⟨dark, number, place, ends, blank⟩ | ⟨known, blank⟩)
    · exact .inl ⟨_, _, by simpa [isDark] using dark, ⟨_, _, rfl, ⟨_, _, ⟨_, number, rfl⟩,
        ⟨_, _, place, ⟨_, _, ends.symm, blank, rfl⟩, rfl⟩, rfl⟩, rfl⟩, rfl⟩
    · exact .inr ⟨_, _, ⟨_, by simpa [isInitial] using known, rfl⟩, ⟨_, _, rfl, blank, rfl⟩, rfl⟩

theorem labelsSolid : ¬ labels.Fits [] := by
  rw [labelIff]
  rintro label
  generalize empty : ([] : List Char) = cs at label
  cases label <;> simp at empty

section Search

theorem endingRest (cs : List Char) :
    (ending.ways cs).head?.map Way.rest = some (Text.trimStart (if cs.head? = some ':' then cs.tail else cs)) := by
  have colonFirst : (Choice.plain (.text [':'])).ways cs
      = if cs.head? = some ':' then [⟨[':'], none, cs.tail⟩] else [] := by
    cases cs with
    | nil => rfl
    | cons c r =>
      by_cases colon : c = ':'
      · subst colon
        rfl
      · have nothing : Text.dropPart? [':'] (c :: r) = none := if_neg (Ne.symm colon)
        rw [Choice.ways, Text.Pattern.ways, nothing, List.head?_cons, if_neg (by simpa using colon)]
        rfl
  rw [ending, Choice.restOfSequence, Choice.ways, colonFirst]
  split
  · rw [List.singleton_append, List.findSome?_cons, Choice.firstOfMany]
    rfl
  · rw [List.nil_append]
    exact List.findSome?_singleton.trans (Choice.firstOfMany isBlank cs)

theorem endingAlways (cs : List Char) : ending.ways cs ≠ [] := by
  intro empty
  have rest := endingRest cs
  rw [empty] at rest
  cases rest

theorem placeRest (cs : List Char) : (place.ways cs).head?.map Way.rest = dropLocation? cs := by
  unfold place dropLocation?
  rw [Choice.restOfText]
  refine congrArg (Option.bind _) (funext fun r => ?_)
  rw [Choice.restOfOne]
  cases r with
  | nil => rfl
  | cons d r =>
    rw [List.head?_cons, Option.any_some, List.tail_cons]
    split
    · next digit =>
      have place : isLocationChar d = true := by simp [isLocationChar, digit]
      rw [Choice.restOfMany isLocationChar endingAlways, endingRest, List.dropWhile_cons_of_pos place]
    · rfl

theorem noLocationAtBlank {c : Char} (blank : isBlank c = true) (r : List Char) : dropLocation? (c :: r) = none := by
  have dot : '.' ≠ c := by
    rintro rfl
    cases blank
  have apart : Text.dropPart? ".dummy:".toList (c :: r) = none := if_neg dot
  rw [dropLocation?, apart, Option.bind_none]

theorem locationRest (cs : List Char) :
    ((Choice.sequence (.plain (.many isDark)) place).ways cs).head?.map Way.rest = dropLastLocation? cs := by
  have runs : ((Choice.sequence (.plain (.many isDark)) place).ways cs).head?.map Way.rest
      = (Text.runs isDark cs).findSome? fun run => dropLocation? run.2 := by
    rw [Choice.restOfSequence, Choice.ways, Text.Pattern.ways, List.findSome?_map]
    exact congrArg (List.findSome? · _) (funext fun run => placeRest run.2)
  rw [runs]
  clear runs
  induction cs with
  | nil => rfl
  | cons c r ih =>
    rw [Text.runs, List.findSome?_append, List.findSome?_singleton, dropLastLocation?]
    cases blank : isBlank c with
    | true => simp [isDark, blank, noLocationAtBlank blank r]
    | false =>
      have own : isDark c = true := by simp [isDark, blank]
      have longer : ((Text.runs isDark r).map fun run => (c :: run.1, run.2)).findSome? (fun run => dropLocation? run.2)
          = dropLastLocation? r := List.findSome?_map.trans ih
      rw [if_pos own, longer]
      rfl

theorem nameRest (cs : List Char) : (solverName.ways cs).head?.map Way.rest = dropName? cs := by
  unfold solverName dropName? dropBareName?
  rw [Choice.restOfOne]
  cases cs with
  | nil => rfl
  | cons c r =>
    have behind : ((Choice.sequence (.plain (.text "ummy:".toList)) (.plain (.many isBlank))).ways r).head?.map Way.rest
        = (Text.dropPart? "ummy:".toList r).map Text.trimStart := by
      rw [Choice.restOfText, Option.map_eq_bind]
      exact congrArg (Option.bind _) (funext fun rest => Choice.firstOfMany isBlank rest)
    have step (initial : Char) : Text.dropPart? (initial :: "ummy:".toList) (c :: r)
        = if initial = c then Text.dropPart? "ummy:".toList r else none := rfl
    have lower : "dummy:".toList = 'd' :: "ummy:".toList := rfl
    have upper : "Dummy:".toList = 'D' :: "ummy:".toList := rfl
    rw [List.head?_cons, Option.any_some, List.tail_cons, behind, lower, upper, step, step]
    by_cases small : c = 'd'
    · subst small
      simp [isInitial]
    · by_cases capital : c = 'D'
      · subst capital
        simp [isInitial]
      · simp [isInitial, small, capital, Ne.symm small, Ne.symm capital]

theorem labelAhead (cs : List Char) : (labels.ahead? cs).map Way.rest = dropLabel? cs := by
  rw [Choice.aheadOfSolid labelsSolid, labels, Choice.firstOfEither, Option.map_or, locationRest, nameRest, dropLabel?]

end Search

theorem dropLabelsJoined (cs : List Char) : dropLabels cs = (labels.cut cs).joined := by
  induction cs using Choice.byMatches labels with
  | nil => rw [dropLabelsNil, Choice.cutNil]; rfl
  | found cs w found ih =>
    have label : dropLabel? cs = some w.rest := by rw [← labelAhead, found]; rfl
    rw [dropLabelsOfLabel label, ih, Choice.cutOfMatch found]
    rfl
  | plain c r plain ih =>
    have nothing : dropLabel? (c :: r) = none := by rw [← labelAhead, plain]; rfl
    rw [dropLabelsOfPlain nothing, ih, Choice.cutOfPlain plain]
    rfl

theorem trimmedBehindLocation {cs r : List Char} (location : dropLastLocation? cs = some r) :
    ∃ s, r = Text.trimStart s := by
  induction cs with
  | nil => cases location
  | cons d cs ih =>
    rw [dropLastLocation?] at location
    split at location
    · cases location
    · rcases Option.or_eq_some_iff.mp location with later | ⟨-, here⟩
      · exact ih later
      · obtain ⟨s, -, found⟩ := Option.bind_eq_some_iff.mp here
        split at found
        · exact ⟨_, (Option.some.inj found).symm⟩
        · cases found

theorem darkBehindLabel {cs r : List Char} (label : dropLabel? cs = some r) {c : Char} (front : r.head? = some c) :
    isBlank c = false := by
  have trimmed : ∃ s, r = Text.trimStart s := by
    rcases Option.or_eq_some_iff.mp label with location | ⟨-, name⟩
    · exact trimmedBehindLocation location
    · obtain ⟨s, -, rfl⟩ := Option.map_eq_some_iff.mp name
      exact ⟨s, rfl⟩
  obtain ⟨s, rfl⟩ := trimmed
  have stopped := List.head?_dropWhile_not isBlank s
  rw [Text.trimStart] at front
  rw [front] at stopped
  simpa using stopped

theorem darkBehindLabels (cs : List Char) :
    ∀ part ∈ (labels.cut cs).behind, ∀ c, part.2.head? = some c → isBlank c = false := by
  induction cs using Choice.byMatches labels with
  | nil => simp [Choice.cutNil]
  | found cs w found ih =>
    have label : dropLabel? cs = some w.rest := by rw [← labelAhead, found]; rfl
    rw [Choice.cutOfMatch found]
    refine List.forall_mem_cons.mpr ⟨fun c front => darkBehindLabel label ?_, ih⟩
    rw [← Choice.textOfCut labels w.rest, Cut.text, List.head?_append, front]
    rfl
  | plain c r plain ih =>
    rw [Choice.cutOfPlain plain]
    exact ih

def Unlabelled (text : List Char) : Prop := ∀ label, Label label → ¬ label <:+: text

def names : List (List Char) := ["dummy:".toList, "Dummy:".toList]

theorem labelOfName {name : List Char} (known : name ∈ names) : Label name := by
  rcases List.mem_pair.mp known with rfl | rfl
  · exact .name (.inl rfl) (List.forall_mem_nil _)
  · exact .name (.inr rfl) (List.forall_mem_nil _)

theorem nameInLabel {label : List Char} (own : Label label) : ∃ name ∈ names, name <:+: label := by
  cases own with
  | location => exact ⟨"dummy:".toList, List.mem_cons_self, _ ++ ['.'], _, by simp; rfl⟩
  | @name initial blanks known =>
    have inside : initial :: "ummy:".toList <:+: initial :: ("ummy:".toList ++ blanks) := ⟨[], blanks, rfl⟩
    rcases known with rfl | rfl
    · exact ⟨_, List.mem_cons_self, inside⟩
    · exact ⟨_, List.mem_cons_of_mem _ List.mem_cons_self, inside⟩

theorem unlabelledIff {text : List Char} : Unlabelled text ↔ ∀ name ∈ names, ¬ name <:+: text := by
  constructor
  · exact fun free name known => free name (labelOfName known)
  · intro free label own inside
    obtain ⟨name, known, part⟩ := nameInLabel own
    exact free name known (part.trans inside)

instance (text : List Char) : Decidable (Unlabelled text) :=
  decidable_of_iff (∀ name ∈ names, Text.occursIn name text = false) <| by
    simp only [unlabelledIff, ← Text.occursIff, Bool.not_eq_true]

theorem keptUnlabelled (message : List Char) : ∀ kept ∈ (labels.cut message).kept, Unlabelled kept :=
  fun kept member label own => Choice.keptFree labelsSolid message kept member label (labelIff.mpr own)

theorem cleanCut (message : List Char) : clean message = Text.trim (labels.cut message).joined := by
  rw [clean, dropLabelsJoined]

theorem cleanUnlabelled {message : List Char} (free : Unlabelled message) : clean message = Text.trim message := by
  rw [cleanCut, Choice.cutOfFree fun label fits => free label (labelIff.mp fits)]
  exact congrArg Text.trim (List.append_nil message)

theorem cleaningTakesLabels (message : List Char) :
    (labels.cut message).text = message ∧
    (∀ label ∈ (labels.cut message).removed, Label label) ∧
    (∀ part ∈ (labels.cut message).behind, ∀ c, part.2.head? = some c → isBlank c = false) ∧
    (∀ kept ∈ (labels.cut message).kept, Unlabelled kept) ∧
    clean message = Text.trim (labels.cut message).joined ∧
    (Unlabelled message → clean message = Text.trim message) :=
  ⟨Choice.textOfCut labels message, fun label member => labelIff.mp (Choice.removedFits labels message label member),
    darkBehindLabels message, keptUnlabelled message, cleanCut message, cleanUnlabelled⟩

theorem locationsAndNamesAreTaken :
    (labels.cut "in a.dummy:3:b.dummy:4.5-7: x(Dummy: y)\n".toList).removed
        = ["a.dummy:3:b.dummy:4.5-7: ".toList, "Dummy: ".toList] ∧
      clean "in a.dummy:3:b.dummy:4.5-7: x(Dummy: y)\n".toList = "in x(y)".toList ∧
      clean " model.mzn:4: dummy ".toList = "model.mzn:4: dummy".toList := by
  have cut := cleaningTakesLabels "in a.dummy:3:b.dummy:4.5-7: x(Dummy: y)\n".toList
  obtain ⟨-, -, -, -, -, plain⟩ := cleaningTakesLabels " model.mzn:4: dummy ".toList
  refine ⟨by decide +kernel, cut.2.2.2.2.1.trans (by decide +kernel), ?_⟩
  exact (plain (by decide +kernel)).trans (by decide +kernel)

end ConstraintDesk.Diagnostics
