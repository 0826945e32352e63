import ConstraintDesk.Proofs.Line.Failures
import ConstraintDesk.Proofs.Text.Lines
import ConstraintDesk.Proofs.Text.Columns

/-! Lines and documents that are refused. The mark of a refusal lies on the line that is refused, and a
document is refused for the first line that is. -/
namespace ConstraintDesk

namespace Line

theorem boundaryOfToken {t : Token} {cs : List Char} (member : t ∈ tokens cs) : Text.IsBoundary cs t.start := by
  obtain ⟨front, behind, split⟩ := List.append_of_mem member
  obtain ⟨tail, text, rest⟩ := tokensSplit split
  have start := startOfCons rest.symm
  exact ⟨textOf front, ⟨tail, text.symm⟩, by rw [start, Nat.zero_add]⟩

def Failure.position (cs : List Char) (f : Failure) : Nat := f.offset.getD (Text.byteLength (Text.trimEnd cs))

theorem Failure.markEq (cs : List Char) (f : Failure) : f.mark cs = .ofOffset cs (f.position cs) := by
  unfold mark position
  cases f.offset with
  | some offset => rfl
  | none => exact (Mark.ofPrefix (Text.trimEndPrefix cs)).symm

theorem Failure.IsAmong.boundary {cs : List Char} {f : Failure} (among : f.IsAmong (tokens cs)) :
    Text.IsBoundary cs (f.position cs) := by
  unfold position
  cases same : f.offset with
  | some offset =>
    obtain ⟨t, member, rfl⟩ := among.place offset same
    exact boundaryOfToken member
  | none => exact ⟨_, Text.trimEndPrefix cs, rfl⟩

def IsOtherMessage (s : String) : Prop := ∃ c, s.toList[1]? = some c ∧ c ≠ 'm'

theorem IsOtherMessage.append {front : String} (h : IsOtherMessage front) (r : String) :
    IsOtherMessage (front ++ r) := by
  obtain ⟨c, letter, other⟩ := h
  have inside : 1 < front.toList.length := (List.getElem?_eq_some_iff.mp letter).1
  exact ⟨c, by rw [String.toList_append, List.getElem?_append_left inside, letter], other⟩

theorem otherMessage {fault : Fault} (stated : fault ≠ .emptyLine) : IsOtherMessage fault.message := by
  have expected : IsOtherMessage "expected " := ⟨'x', rfl, by decide⟩
  have identifier : IsOtherMessage "expected identifier, found " := ⟨'x', rfl, by decide⟩
  have unexpected : IsOtherMessage "unexpected " := ⟨'n', rfl, by decide⟩
  cases fault with
  | emptyLine => exact absurd rfl stated
  | missing kind => exact expected.append _
  | mismatch wanted found => exact ((expected.append _).append _).append _
  | noIdentifier found => exact identifier.append _
  | unexpected kind => exact unexpected.append _
  | wrongValue domain => exact (expected.append _).append _
  | trailingText | spaceInIdentifier | hugeInteger => exact ⟨'n', rfl, by decide⟩
  | noStatement | noDirective | noDomain | noNumber | noExpression => exact ⟨'x', rfl, by decide⟩

theorem messageOfStated {fault : Fault} (stated : fault ≠ .emptyLine) : fault.message ≠ "empty statement" := by
  intro same
  obtain ⟨c, letter, other⟩ := otherMessage stated
  rw [same] at letter
  cases letter
  exact other rfl

def IsBlank (line : List Char) : Prop := Text.trim line = [] ∨ (Text.trim line).head? = some '%'

theorem blankLine {line : List Char} : isBlankLine line = true ↔ IsBlank line := by
  unfold isBlankLine IsBlank Text.trim
  cases start : Text.trimStart line with
  | nil => simp [Text.trimEnd]
  | cons c r =>
    have dark : Text.isBlank c = false := by
      have stopped := List.head?_dropWhile_not Text.isBlank line
      rw [← Text.trimStart, start] at stopped
      simpa using stopped
    have nonempty : Text.trimEnd (c :: r) ≠ [] := by
      intro empty
      have blank := Text.trimEndEqNil.mp empty c List.mem_cons_self
      rw [dark] at blank
      cases blank
    obtain ⟨d, front, same⟩ := List.exists_cons_of_ne_nil nonempty
    have ahead := Text.trimEndPrefix (c :: r)
    rw [same] at ahead ⊢
    obtain ⟨rfl, -⟩ := List.cons_prefix_cons.mp ahead
    simp

theorem blankOfTrivia {cs : List Char} {offset : Nat} (trivia : ∀ t ∈ tokensFrom offset cs, t.kind.isTrivia = true) :
    isBlankLine cs = true := by
  induction cs using byTokens generalizing offset with
  | nil => rfl
  | token c w rest kind found ih =>
    rw [tokensCons offset found] at trivia
    rcases triviaOfFirst (c := c) (r := w ++ rest) (by rw [found]; exact trivia _ List.mem_cons_self) with space | rfl
    · have blank : ∀ d ∈ c :: w, Text.isBlank d = true := by
        intro d member
        by_contra dark
        have other := spaceOfDark (by simpa using dark)
        rw [spacesOfFirst space found d member] at other
        cases other
      have later := ih fun t member => trivia t (List.mem_cons_of_mem _ member)
      unfold isBlankLine at later ⊢
      rwa [← List.cons_append, Text.trimStartAhead blank]
    · rfl

theorem significantOfDark {line : List Char} (dark : ¬ IsBlank line) : significant (tokens line) ≠ [] := by
  intro empty
  rw [significant, List.dropWhile_eq_nil_iff] at empty
  exact dark (blankLine.mp (blankOfTrivia empty))

structure IsRefused (line : List Char) (own : SyntaxError) : Prop where
  dark : ¬ IsBlank line
  refused : parse line = .error own

structure Pinpoints (line : List Char) (own : SyntaxError) (f : Failure) : Prop where
  failed : Parser.statement (tokens line) = .error f
  error : own = ⟨f.fault.message, .ofOffset line (f.position line)⟩
  boundary : Text.IsBoundary line (f.position line)

theorem IsRefused.pinpointed {line : List Char} {own : SyntaxError} (h : IsRefused line own) :
    own.reason ≠ "empty statement" ∧ ∃ f, Pinpoints line own f := by
  have refused := h.refused
  unfold parse at refused
  split at refused
  · cases refused
  next f failed =>
    have among := Parser.statementBlames (significantOfDark h.dark) failed
    cases refused
    exact ⟨messageOfStated among.stated, f, failed, by rw [f.markEq], among.boundary⟩

theorem Pinpoints.onLine {line : List Char} (unbroken : '\n' ∉ line) {own : SyntaxError} {f : Failure}
    (h : Pinpoints line own f) : own.mark.line = 0 ∧ own.mark.column ≤ line.length := by
  rw [h.error]
  exact Mark.onLine unbroken h.boundary

structure FirstRefused (lines : List (List Char)) (index : Nat) (line : List Char) (own : SyntaxError) : Prop where
  found : lines[index]? = some line
  refused : IsRefused line own
  earlier : ∀ l ∈ lines.take index, ∀ e, ¬ IsRefused l e

theorem FirstRefused.cons {first line : List Char} {rest : List (List Char)} {index : Nat} {own : SyntaxError}
    (taken : ∀ e, ¬ IsRefused first e) (h : FirstRefused rest index line own) :
    FirstRefused (first :: rest) (index + 1) line own := by
  refine ⟨by simpa using h.found, h.refused, ?_⟩
  rw [List.take_succ_cons, List.forall_mem_cons]
  exact ⟨taken, h.earlier⟩

theorem addLineTaken {m n : Model} {line : List Char} {index : Nat} (added : addLine m line index = .ok n)
    (e : SyntaxError) : ¬ IsRefused line e := by
  rintro ⟨dark, refused⟩
  unfold addLine at added
  rw [if_neg fun blank => dark (blankLine.mp blank), refused] at added
  cases added

theorem addLineError {m : Model} {line : List Char} {index : Nat} {e : SyntaxError}
    (failed : addLine m line index = .error e) : ∃ own, IsRefused line own ∧ e = own.down index := by
  unfold addLine at failed
  split at failed
  · cases failed
  next dark =>
    split at failed
    · cases failed
    next own read =>
      cases failed
      exact ⟨own, ⟨fun blank => dark (blankLine.mpr blank), read⟩, rfl⟩

theorem addLinesTaken {lines : List (List Char)} {m n : Model} {index : Nat} (read : addLines m index lines = .ok n) :
    ∀ line ∈ lines, ∀ e, ¬ IsRefused line e := by
  induction lines generalizing m index with
  | nil => simp
  | cons line rest ih =>
    rw [addLines] at read
    split at read
    · next added => exact List.forall_mem_cons.mpr ⟨addLineTaken added, ih read⟩
    · cases read

theorem addLinesError {lines : List (List Char)} {m : Model} {index : Nat} {e : SyntaxError}
    (failed : addLines m index lines = .error e) :
    ∃ place line own, FirstRefused lines place line own ∧ e = own.down (index + place) := by
  induction lines generalizing m index with
  | nil => cases failed
  | cons line rest ih =>
    rw [addLines] at failed
    cases added : addLine m line index with
    | error own =>
      rw [added] at failed
      cases failed
      obtain ⟨own, refused, down⟩ := addLineError added
      exact ⟨0, line, own, ⟨rfl, refused, by simp⟩, down⟩
    | ok n =>
      rw [added] at failed
      obtain ⟨later, l, own, found, down⟩ := ih failed
      exact ⟨later + 1, l, own, found.cons (addLineTaken added), by rw [down, Nat.add_assoc, Nat.add_comm 1]⟩

end Line

theorem refusedForTheFirstBadLine (text : List Char) :
    ((∃ e, Line.parseDocument text = .error e) ↔ ∃ line ∈ Text.lines text, ∃ own, Line.IsRefused line own)
      ∧ ∀ e, Line.parseDocument text = .error e → ∃ line own f,
        Line.FirstRefused (Text.lines text) e.mark.line line own ∧ e = own.down e.mark.line
          ∧ e.mark.column ≤ line.length ∧ e.reason ≠ "empty statement" ∧ Line.Pinpoints line own f := by
  constructor
  · constructor
    · rintro ⟨e, failed⟩
      obtain ⟨place, line, own, first, -⟩ := Line.addLinesError failed
      exact ⟨line, List.mem_of_getElem? first.found, own, first.refused⟩
    · rintro ⟨line, member, own, refused⟩
      cases read : Line.parseDocument text with
      | error e => exact ⟨e, rfl⟩
      | ok m => exact absurd refused (Line.addLinesTaken read line member own)
  · intro e failed
    obtain ⟨place, line, own, first, rfl⟩ := Line.addLinesError failed
    obtain ⟨reason, f, pinpoints⟩ := first.refused.pinpointed
    have unbroken := Text.linesUnbroken (List.mem_of_getElem? first.found)
    obtain ⟨row, column⟩ := pinpoints.onLine unbroken
    have here : (own.down (0 + place)).mark.line = place := by simp [SyntaxError.down, Mark.down, row]
    rw [here, Nat.zero_add]
    exact ⟨line, own, f, first, rfl, column, reason, pinpoints⟩

theorem missingBoundIsPointedAt :
    Line.parseDocument "int: p = 3;\n\u00a0\nvar 0..: x;\n".toList = .error ⟨"expected a number", ⟨2, 7⟩⟩
      ∧ ∃ line own, Line.FirstRefused (Text.lines "int: p = 3;\n\u00a0\nvar 0..: x;\n".toList) 2 line own
        ∧ 7 ≤ line.length := by
  have failed : Line.parseDocument "int: p = 3;\n\u00a0\nvar 0..: x;\n".toList
      = .error ⟨"expected a number", ⟨2, 7⟩⟩ := by decide +kernel
  obtain ⟨line, own, -, first, -, column, -⟩ := (refusedForTheFirstBadLine _).2 _ failed
  exact ⟨failed, line, own, first, column⟩

end ConstraintDesk
