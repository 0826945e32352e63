import ConstraintDesk.Proofs.Desk.Remapping
import ConstraintDesk.Proofs.Reasoner.Messages

/-! Messages and the line ends between them. Two line ends part two messages and each two more part an empty
one. An odd one is left in front of the next message, or behind the last, as a blank margin. -/
namespace ConstraintDesk.Diagnostics

inductive LineEnd where
  | lf
  | crlf
  deriving DecidableEq, Repr

def LineEnd.text : LineEnd → List Char
  | .lf => ['\n']
  | .crlf => ['\r', '\n']

def breaks (ends : List LineEnd) : List Char := ends.flatMap LineEnd.text

structure IsEnding (cs : List Char) : Prop where
  back : ∀ c ∈ cs.getLast?, c ≠ '\r' ∧ c ≠ '\n'
  unbroken : ∀ a b : LineEnd, ¬ a.text ++ b.text <:+: cs

structure IsMessage (message : List Char) : Prop extends IsEnding message where
  notEmpty : message ≠ []
  front : ∀ c ∈ message.head?, c ≠ '\r' ∧ c ≠ '\n'

def texts (parts : List (List Char × List LineEnd)) : List Char := parts.flatMap fun part => part.1 ++ breaks part.2

def stream (front : List LineEnd) (parts : List (List Char × List LineEnd)) : List Char := breaks front ++ texts parts

/-- Messages that are set apart by two line ends or more; there may be any number behind the last. -/
structure IsFramed (parts : List (List Char × List LineEnd)) : Prop where
  message : ∀ part ∈ parts, IsMessage part.1
  apart : ∀ part ∈ parts.dropLast, 2 ≤ part.2.length

namespace IsFramed

variable {part : List Char × List LineEnd} {parts : List (List Char × List LineEnd)} (framed : IsFramed (part :: parts))

include framed

theorem last (few : part.2.length < 2) : parts = [] := by
  cases parts with
  | nil => rfl
  | cons next parts =>
    have apart := framed.apart part List.mem_cons_self
    omega

theorem tail : IsFramed parts := by
  constructor
  · exact fun later member => framed.message later (List.mem_cons_of_mem _ member)
  · intro later member
    cases parts with
    | nil => cases member
    | cons next parts => exact framed.apart later (List.mem_cons_of_mem _ member)

end IsFramed

theorem blocksOfSeparator {cs r : List Char} (separator : dropSeparator? cs = some r) (done : List Char) :
    blocksFrom done cs = done.reverse :: blocksFrom [] r := by
  rw [blocksFrom]
  split
  · next s found =>
    obtain rfl := Option.some.inj (separator.symm.trans found)
    rfl
  · next nothing => cases separator.symm.trans nothing

theorem blocksOfNil (done : List Char) : blocksFrom done [] = [done.reverse] := by
  rw [blocksFrom]
  split
  · next s found => cases found
  · rfl

theorem blocksOfPlain {c : Char} {r : List Char} (plain : dropSeparator? (c :: r) = none) (done : List Char) :
    blocksFrom done (c :: r) = blocksFrom (c :: done) r := by
  rw [blocksFrom]
  split
  · next s found => cases plain.symm.trans found
  · rfl

theorem breakAhead (e : LineEnd) (rest : List Char) : dropBreak? (e.text ++ rest) = some rest := by
  cases e <;> rfl

theorem blankBreaks (ends : List LineEnd) : ∀ c ∈ breaks ends, Text.isBlank c = true := by
  intro c member
  obtain ⟨e, -, inside⟩ := List.mem_flatMap.mp member
  cases e with
  | lf =>
    obtain rfl := List.mem_singleton.mp inside
    rfl
  | crlf => rcases List.mem_pair.mp inside with rfl | rfl <;> rfl

theorem blocksOfTwoEnds (a b : LineEnd) (ends : List LineEnd) (rest done : List Char) :
    blocksFrom done (breaks (a :: b :: ends) ++ rest) = done.reverse :: blocksFrom [] (breaks ends ++ rest) := by
  have text : breaks (a :: b :: ends) ++ rest = a.text ++ (b.text ++ (breaks ends ++ rest)) := by
    simp [breaks]
  have separator : dropSeparator? (breaks (a :: b :: ends) ++ rest) = some (breaks ends ++ rest) := by
    rw [text, dropSeparator?, breakAhead, Option.bind_some, breakAhead]
  exact blocksOfSeparator separator done

theorem blocksOfEnd {rest : List Char} (starts : dropBreak? rest = none) (e : LineEnd) (done : List Char) :
    blocksFrom done (e.text ++ rest) = blocksFrom (e.text.reverse ++ done) rest := by
  have single (cs : List Char) (ahead : dropBreak? cs = some rest) : dropSeparator? cs = none := by
    rw [dropSeparator?, ahead, Option.bind_some, starts]
  cases e with
  | lf => exact blocksOfPlain (single _ rfl) done
  | crlf =>
    have first : blocksFrom done ('\r' :: '\n' :: rest) = blocksFrom ('\r' :: done) ('\n' :: rest) :=
      blocksOfPlain (single _ rfl) done
    exact first.trans (blocksOfPlain (single _ rfl) _)

theorem blocksOfFew {ends : List LineEnd} (few : ends.length < 2) (done : List Char) :
    blocksFrom done (breaks ends) = [done.reverse ++ breaks ends] := by
  match ends, few with
  | [], _ => rw [breaks, List.flatMap_nil, blocksOfNil, List.append_nil]
  | [e], _ =>
    have single : breaks [e] = e.text ++ [] := rfl
    rw [single, blocksOfEnd rfl, blocksOfNil, List.reverse_append, List.reverse_reverse, List.append_nil]

theorem IsEnding.tail {c : Char} {r : List Char} (ending : IsEnding (c :: r)) : IsEnding r := by
  constructor
  · intro d last
    cases r with
    | nil => cases last
    | cons e r => exact ending.back d (List.getLast?_cons_cons.trans last)
  · exact fun a b inside => ending.unbroken a b (List.infix_cons inside)

theorem IsEnding.behind {front back : List Char} (ending : IsEnding (front ++ back)) : IsEnding back := by
  induction front with
  | nil => exact ending
  | cons c front ih => exact ih ending.tail

theorem breakIff {cs r : List Char} : dropBreak? cs = some r ↔ ∃ e : LineEnd, cs = e.text ++ r := by
  constructor
  · intro found
    unfold dropBreak? at found
    split at found
    · cases found
      exact ⟨.lf, rfl⟩
    · cases found
      exact ⟨.crlf, rfl⟩
    · cases found
  · rintro ⟨e, rfl⟩
    exact breakAhead e r

theorem breakInside {cs rest r : List Char} (ending : IsEnding cs) (notEmpty : cs ≠ [])
    (found : dropBreak? (cs ++ rest) = some r) :
    ∃ (e : LineEnd) (later : List Char), cs = e.text ++ later ∧ later ≠ [] ∧ r = later ++ rest := by
  obtain ⟨e, same⟩ := breakIff.mp found
  obtain ⟨c, cs, rfl⟩ := List.exists_cons_of_ne_nil notEmpty
  cases e with
  | lf =>
    obtain ⟨rfl, rfl⟩ := List.cons.inj same
    refine ⟨.lf, cs, rfl, ?_, rfl⟩
    rintro rfl
    exact (ending.back _ rfl).2 rfl
  | crlf =>
    obtain ⟨rfl, tail⟩ := List.cons.inj same
    cases cs with
    | nil => exact absurd rfl (ending.back _ rfl).1
    | cons d cs =>
      obtain ⟨rfl, rfl⟩ := List.cons.inj tail
      refine ⟨.crlf, cs, rfl, ?_, rfl⟩
      rintro rfl
      exact (ending.back _ rfl).2 rfl

theorem noSeparatorInside {cs : List Char} (ending : IsEnding cs) (notEmpty : cs ≠ []) (rest : List Char) :
    dropSeparator? (cs ++ rest) = none := by
  cases found : dropSeparator? (cs ++ rest) with
  | none => rfl
  | some r =>
    obtain ⟨between, first, second⟩ := Option.bind_eq_some_iff.mp found
    obtain ⟨e, later, rfl, nonempty, rfl⟩ := breakInside ending notEmpty first
    obtain ⟨f, last, rfl, -, -⟩ := breakInside ending.behind nonempty second
    exact absurd ⟨[], last, by simp⟩ (ending.unbroken e f)

theorem blocksOfMessage {cs : List Char} (ending : IsEnding cs) (rest done : List Char) :
    blocksFrom done (cs ++ rest) = blocksFrom (cs.reverse ++ done) rest := by
  induction cs generalizing done with
  | nil => rfl
  | cons c r ih =>
    have plain : dropSeparator? (c :: (r ++ rest)) = none := noSeparatorInside ending (by simp) rest
    rw [List.cons_append, blocksOfPlain plain, ih ending.tail, List.reverse_cons, List.append_assoc,
      List.singleton_append]

theorem blocksOfPart {m : List Char} (message : IsMessage m) (ends : List LineEnd)
    (parts : List (List Char × List LineEnd)) (done : List Char) :
    blocksFrom done (texts ((m, ends) :: parts)) = blocksFrom (m.reverse ++ done) (breaks ends ++ texts parts) := by
  rw [texts, List.flatMap_cons, List.append_assoc, blocksOfMessage message.toIsEnding]
  rfl

theorem IsMessage.starts {m : List Char} (message : IsMessage m) (rest : List Char) :
    dropBreak? (m ++ rest) = none := by
  obtain ⟨c, r, rfl⟩ := List.exists_cons_of_ne_nil message.notEmpty
  obtain ⟨notReturn, notFeed⟩ := message.front c rfl
  simp [dropBreak?, notReturn, notFeed]

theorem textsStart {parts : List (List Char × List LineEnd)} (message : ∀ part ∈ parts, IsMessage part.1) :
    dropBreak? (texts parts) = none := by
  cases parts with
  | nil => rfl
  | cons part parts =>
    rw [texts, List.flatMap_cons, List.append_assoc]
    exact (message part List.mem_cons_self).starts _

/-- What is read off a message and does not depend on blank margins; there is nothing in an empty message. -/
structure Marginal {α : Type} (f : List Char → Option α) : Prop where
  nothing : f [] = none
  margins : ∀ front back message, (∀ c ∈ front, Text.isBlank c = true) → (∀ c ∈ back, Text.isBlank c = true) →
    f (front ++ (message ++ back)) = f message

section Marginal

variable {α : Type} {f : List Char → Option α} (marginal : Marginal f)

include marginal

theorem Marginal.blank {margin : List Char} (blank : ∀ c ∈ margin, Text.isBlank c = true) : f margin = none := by
  have same := marginal.margins margin [] [] blank (by simp)
  rwa [List.nil_append, List.append_nil, marginal.nothing] at same

theorem Marginal.afterEnds {rest : List Char} (starts : dropBreak? rest = none) :
    ∀ ends : List LineEnd, ∃ margin : List Char, (∀ c ∈ margin, Text.isBlank c = true)
      ∧ (blocksFrom [] (breaks ends ++ rest)).filterMap f = (blocksFrom margin.reverse rest).filterMap f
  | [] => ⟨[], by simp, rfl⟩
  | [e] => by
    have single : breaks [e] = e.text := List.append_nil _
    refine ⟨breaks [e], blankBreaks [e], ?_⟩
    rw [single, blocksOfEnd starts, List.append_nil]
  | a :: b :: later => by
    obtain ⟨margin, blank, same⟩ := Marginal.afterEnds starts later
    refine ⟨margin, blank, ?_⟩
    rw [blocksOfTwoEnds, List.reverse_nil, List.filterMap_cons_none marginal.nothing, same]

theorem Marginal.ofTexts {parts : List (List Char × List LineEnd)} (framed : IsFramed parts) {margin : List Char}
    (blank : ∀ c ∈ margin, Text.isBlank c = true) :
    (blocksFrom margin.reverse (texts parts)).filterMap f = (parts.map Prod.fst).filterMap f := by
  induction parts generalizing margin with
  | nil =>
    have nothing := marginal.blank blank
    rw [texts, List.flatMap_nil, blocksOfNil, List.reverse_reverse, List.filterMap_cons_none nothing]
    rfl
  | cons part parts ih =>
    obtain ⟨m, ends⟩ := part
    have block (back : List Char) (behind : ∀ c ∈ back, Text.isBlank c = true) : f (margin ++ (m ++ back)) = f m :=
      marginal.margins margin back m blank behind
    rw [blocksOfPart (framed.message _ List.mem_cons_self), ← List.reverse_append, List.map_cons]
    -- Behind the last message alone there may be fewer than two line ends; they stay with it.
    by_cases few : ends.length < 2
    · obtain rfl := framed.last few
      rw [texts, List.flatMap_nil, List.append_nil, blocksOfFew few, List.reverse_reverse, List.append_assoc,
        List.filterMap_cons, List.filterMap_cons, block _ (blankBreaks ends)]
      rfl
    · match ends with
      | [] | [_] => exact absurd (by simp) few
      | a :: b :: later =>
        obtain ⟨next, nextBlank, same⟩ := marginal.afterEnds (textsStart framed.tail.message) later
        have bare := block [] (by simp)
        rw [List.append_nil] at bare
        rw [blocksOfTwoEnds, List.reverse_reverse, List.filterMap_cons, List.filterMap_cons, bare, same,
          ih framed.tail nextBlank]

theorem Marginal.ofStream (front : List LineEnd) {parts : List (List Char × List LineEnd)} (framed : IsFramed parts) :
    (blocks (stream front parts)).filterMap f = (parts.map Prod.fst).filterMap f := by
  obtain ⟨margin, blank, same⟩ := marginal.afterEnds (textsStart framed.message) front
  exact same.trans (marginal.ofTexts framed blank)

end Marginal

def located? (message : List Char) : Option (Nat × List Char) :=
  (lineReference? message).map fun k => (k, clean message)

theorem marginalLocated : Marginal located? where
  nothing := rfl
  margins := by
    intro front back message ahead behind
    rw [located?, located?, lineReferenceMargins ahead behind, cleanMargins ahead behind]

theorem annotationOfLocated (s : Submission) (intermediate : String) :
    ∃ g : Nat × List Char → Option Annotation, ∀ message,
      s.annotation? intermediate message = (located? message).bind g := by
  by_cases lines : s.dialect = .dummy
  · refine ⟨fun place => some (.error place.1 0 (String.ofList place.2)), fun message => ?_⟩
    rw [Submission.annotationOfLines lines, located?, Option.bind_map, Option.map_eq_bind]
    rfl
  · refine ⟨fun place => (Submission.locate? place.1 (Text.lines intermediate.toList) (Text.lines s.content.toList)).map
      fun row => .error row 0 (String.ofList place.2), fun message => ?_⟩
    rw [Submission.annotationOfValues lines, located?, Option.bind_map]
    rfl

theorem marginalAnnotated (s : Submission) (intermediate : String) : Marginal (s.annotation? intermediate) := by
  obtain ⟨g, located⟩ := annotationOfLocated s intermediate
  constructor
  · rw [located, marginalLocated.nothing, Option.bind_none]
  · intro front back message ahead behind
    rw [located, located, marginalLocated.margins front back message ahead behind]

theorem framingIsImmaterial (front : List LineEnd) {parts : List (List Char × List LineEnd)} (framed : IsFramed parts) :
    (blocks (stream front parts)).filterMap located? = (parts.map Prod.fst).filterMap located?
      ∧ ∀ (s : Submission) (intermediate : String) (o : Outcome), o.stderr.toList = stream front parts →
        s.remapErrors intermediate o
          = match (parts.map Prod.fst).filterMap (s.annotation? intermediate) with
            | [] => [.error 0 0 (Submission.fallbackText o)]
            | a :: more => a :: more := by
  refine ⟨marginalLocated.ofStream front framed, ?_⟩
  intro s intermediate o written
  have located := (marginalAnnotated s intermediate).ofStream front framed
  rw [Submission.remapErrors, written, located]
  cases (parts.map Prod.fst).filterMap (s.annotation? intermediate) <;> rfl

theorem mixedLineEndsAreImmaterial :
    IsFramed [("a.dummy:2: first".toList, [.crlf, .lf, .crlf]), ("b.dummy:5: second\nmore".toList, [.lf])]
      ∧ (blocks "\na.dummy:2: first\r\n\n\r\nb.dummy:5: second\nmore\n".toList).filterMap located?
        = [(1, "first".toList), (4, "second\nmore".toList)]
      ∧ Submission.remapErrors ⟨.dummy, ""⟩ ""
          (.failure "failed" "\na.dummy:2: first\r\n\n\r\nb.dummy:5: second\nmore\n")
        = [.error 1 0 "first", .error 4 0 "second\nmore"] := by
  have framed :
      IsFramed [("a.dummy:2: first".toList, [.crlf, .lf, .crlf]), ("b.dummy:5: second\nmore".toList, [.lf])] := by
    refine ⟨?_, by decide⟩
    intro part member
    rcases List.mem_pair.mp member with rfl | rfl
    all_goals
      refine ⟨⟨?_, ?_⟩, by decide, ?_⟩
      · rintro c ⟨⟩
        decide
      · rintro (_ | _) (_ | _) <;> decide +kernel
      · rintro c ⟨⟩
        decide
  obtain ⟨read, remaps⟩ := framingIsImmaterial [.lf] framed
  refine ⟨framed, read.trans (by decide +kernel), ?_⟩
  refine (remaps ⟨.dummy, ""⟩ "" (.failure "failed" _) rfl).trans ?_
  decide +kernel

end ConstraintDesk.Diagnostics
