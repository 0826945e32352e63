import ConstraintDesk.Proofs.Line.Margins

/-! The layout of documents. Lines with nothing but blanks or a comment do no more than move an error down,
and what ends a line makes no difference. -/
namespace ConstraintDesk

namespace Line

/-- A line of a document: one of its own, or one that was put between them and has nothing but blanks and a
comment. -/
inductive Row where
  | own (line : List Char) (unbroken : '\n' ∉ line)
  | filler (line : List Char) (unbroken : '\n' ∉ line) (blank : IsBlank line)

namespace Row

def text : Row → List Char
  | own line _ => line
  | filler line _ _ => line

def isOwn : Row → Bool
  | own _ _ => true
  | filler _ _ _ => false

theorem unbroken : (row : Row) → '\n' ∉ row.text
  | own _ unbroken => unbroken
  | filler _ unbroken _ => unbroken

def line (row : Row) : List Char := Text.dropReturn row.text

theorem lineUnbroken (row : Row) : '\n' ∉ row.line :=
  fun feed => row.unbroken ((Text.dropReturnPrefix _).subset feed)

def fillersAbove : Nat → List Row → Nat
  | _, [] => 0
  | n, filler _ _ _ :: rows => fillersAbove n rows + 1
  | 0, own _ _ :: _ => 0
  | n + 1, own _ _ :: rows => fillersAbove n rows

def document (rows : List Row) : List Char := Text.joined (rows.map text)

end Row

theorem downDown (e : SyntaxError) (a b : Nat) : (e.down a).down b = e.down (a + b) := by
  simp [SyntaxError.down, Mark.down, Nat.add_assoc]

theorem addLineDown (m : Model) (line : List Char) (index below : Nat) :
    addLine m line (index + below) = (addLine m line index).mapError fun e => e.down below := by
  unfold addLine
  split
  · rfl
  · cases parse line with
    | ok s => rfl
    | error e => exact congrArg Except.error (downDown e index below).symm

theorem addLinesDown (m : Model) (index below : Nat) (lines : List (List Char)) :
    addLines m (index + below) lines = (addLines m index lines).mapError fun e => e.down below := by
  induction lines generalizing m index with
  | nil => rfl
  | cons line rest ih =>
    rw [addLines, addLines, addLineDown]
    cases addLine m line index with
    | error e => rfl
    | ok n =>
      have next : index + below + 1 = index + 1 + below := by omega
      exact next ▸ ih n (index + 1)

theorem addLineRow {m : Model} {line : List Char} (unbroken : '\n' ∉ line) {e : SyntaxError}
    (failed : addLine m line 0 = .error e) : e.mark.line = 0 := by
  obtain ⟨own, refused, rfl⟩ := addLineError failed
  obtain ⟨-, f, pinpoints⟩ := refused.pinpointed
  exact (pinpoints.onLine unbroken).1

theorem blankDropReturn {line : List Char} (blank : IsBlank line) : isBlankLine (Text.dropReturn line) = true := by
  have whole := blankLine.mpr blank
  unfold Text.dropReturn
  split
  · next ended =>
    obtain ⟨front, rfl⟩ := List.getLast?_eq_some_iff.mp ended
    have back : ∀ c ∈ ['\r'], Text.isBlank c = true := by simp [show Text.isBlank '\r' = true by decide]
    rw [List.dropLast_concat]
    unfold isBlankLine at whole ⊢
    rw [Text.trimStartBehind back] at whole
    cases start : Text.trimStart front with
    | nil => rfl
    | cons c r => simpa [start] using whole
  · exact whole

theorem addLinesOfRows (rows : List Row) (m : Model) (index : Nat) :
    addLines m index (rows.map Row.line) = (addLines m 0 ((rows.filter Row.isOwn).map Row.line)).mapError fun e =>
      e.down (index + Row.fillersAbove e.mark.line rows) := by
  induction rows generalizing m index with
  | nil => rfl
  | cons row rows ih =>
    rw [List.map_cons, addLines]
    cases row with
    | filler line unbroken blank =>
      have passed : addLine m (Row.filler line unbroken blank).line index = .ok m := if_pos (blankDropReturn blank)
      have next (n : Nat) : index + Row.fillersAbove n (.filler line unbroken blank :: rows)
          = index + 1 + Row.fillersAbove n rows := by
        rw [Row.fillersAbove]
        omega
      rw [List.filter_cons_of_neg (by simp [Row.isOwn])]
      simp only [passed, ih, next]
    | own line unbroken =>
      generalize same : Row.own line unbroken = row
      have own : row.isOwn = true := same ▸ rfl
      have first := addLineDown m row.line 0 index
      rw [Nat.zero_add] at first
      rw [List.filter_cons_of_pos own, List.map_cons, addLines, first]
      cases added : addLine m row.line 0 with
      | error e =>
        have zero : Row.fillersAbove e.mark.line (row :: rows) = 0 := by
          rw [addLineRow row.lineUnbroken added, ← same, Row.fillersAbove]
        simp only [Except.mapError, zero, Nat.add_zero]
      | ok n =>
        have later := addLinesDown n 0 1 ((rows.filter Row.isOwn).map Row.line)
        have passed (k : Nat) : Row.fillersAbove (k + 1) (row :: rows) = Row.fillersAbove k rows := by
          rw [← same, Row.fillersAbove]
        simp only [Except.mapError, ih, later]
        cases addLines n 0 ((rows.filter Row.isOwn).map Row.line) with
        | ok _ => rfl
        | error e =>
          have line : (e.down 1).mark.line = e.mark.line + 1 := rfl
          simp only [line, passed, downDown]
          congr 2
          omega

theorem parseRows (rows : List Row) : parseDocument (Row.document rows) = addLines .empty 0 (rows.map Row.line) := by
  cases rows with
  | nil => rfl
  | cons row rows =>
    have lines := @Text.linesOfJoined ((row :: rows).map Row.text) (by simp)
      (List.forall_mem_map.mpr fun row _ => row.unbroken)
    rw [parseDocument, Row.document, lines, List.map_map]
    rfl

theorem parsePadded (rows : List Row) : parseDocument (Row.document rows)
    = (parseDocument (Row.document (rows.filter Row.isOwn))).mapError fun e =>
        e.down (Row.fillersAbove e.mark.line rows) := by
  rw [parseRows, parseRows, addLinesOfRows]
  simp only [Nat.zero_add]

theorem parseWithReturns {text : List Char} (absent : '\r' ∉ text) :
    parseDocument (Text.withReturns text) = parseDocument text := by
  rw [parseDocument, parseDocument, Text.linesWithReturns absent]

def IsPadding (cs : List Char) : Prop := ∀ c ∈ cs, c = ' ' ∨ c = '\t'

instance (cs : List Char) : Decidable (IsPadding cs) := List.decidableBAll (fun c => c = ' ' ∨ c = '\t') cs

inductive IsRemark : List Char → Prop
  | none : IsRemark []
  | comment {note : List Char} (unbroken : '\n' ∉ note) : IsRemark ('%' :: note)

theorem IsPadding.spaces {cs : List Char} (padding : IsPadding cs) : ∀ c ∈ cs, isSpace c = true := by
  intro c member
  rcases padding c member with rfl | rfl <;> rfl

theorem IsRemark.margin {cs : List Char} (remark : IsRemark cs) : IsMargin cs := by
  cases remark with
  | none => exact ⟨by simp, by simp⟩
  | comment unbroken => exact ⟨by simp [unbroken], fun c head => by cases head; rfl⟩

end Line

open Line (Row IsPadding IsRemark)

/-- Layout does not matter to a document. Lines with nothing but blanks or a comment move an error down by as
many lines as stand in front of its own. Carriage returns in front of the line feeds are not seen. Spaces and
tabs around a line and a comment behind it do not change the statement. -/
theorem layoutIsImmaterial :
    (∀ rows : List Row, Line.parseDocument (Row.document rows)
        = (Line.parseDocument (Row.document (rows.filter Row.isOwn))).mapError fun e =>
            e.down (Row.fillersAbove e.mark.line rows))
      ∧ (∀ text : List Char, '\r' ∉ text → Line.parseDocument (Text.withReturns text) = Line.parseDocument text)
      ∧ ∀ line before behind remark : List Char, IsPadding before → IsPadding behind → IsRemark remark →
        ∀ s, Line.parse line = .ok s → Line.parse (before ++ (line ++ (behind ++ remark))) = .ok s := by
  refine ⟨Line.parsePadded, fun _ => Line.parseWithReturns, fun line before behind remark ahead after comment s read => ?_⟩
  exact Line.parseInMargins ahead.spaces ((Line.marginBehind after.spaces remark).mpr comment.margin) read

def paddedRows : List Row :=
  [.own "int: p = 3;".toList (by decide), .filler "% note".toList (by decide) (Line.blankLine.mp (by decide)),
    .filler "\t".toList (by decide) (Line.blankLine.mp (by decide)), .own "var 0..: x;".toList (by decide)]

theorem fillersReturnsAndMargins :
    Line.parseDocument "int: p = 3;\n% note\n\t\nvar 0..: x;".toList = .error ⟨"expected a number", ⟨3, 7⟩⟩
      ∧ Line.parseDocument "solve satisfy;\r\n% note".toList = .ok ⟨[], [], [], some ⟨.satisfy, none⟩⟩
      ∧ Line.parse "\t constraint c: x = \"a;%\";\t% \"note;".toList
        = .ok (.constraints [⟨"c", "x = \"a;%\""⟩]) := by
  obtain ⟨fillers, returns, margins⟩ := layoutIsImmaterial
  refine ⟨?_, ?_, ?_⟩
  · have text : Row.document paddedRows = "int: p = 3;\n% note\n\t\nvar 0..: x;".toList := by decide +kernel
    have own : Line.parseDocument (Row.document (paddedRows.filter Row.isOwn))
        = .error ⟨"expected a number", ⟨1, 7⟩⟩ := by decide +kernel
    have padded := fillers paddedRows
    rw [text, own] at padded
    exact padded
  · have text : Text.withReturns "solve satisfy;\n% note".toList = "solve satisfy;\r\n% note".toList := by decide +kernel
    rw [← text, returns _ (by decide)]
    exact okOfToOption (by decide +kernel)
  · have read : Line.parse "constraint c: x = \"a;%\";".toList = .ok (.constraints [⟨"c", "x = \"a;%\""⟩]) :=
      okOfToOption (by decide +kernel)
    have note : IsRemark "% \"note;".toList := @IsRemark.comment " \"note;".toList (by decide)
    have text : "\t ".toList ++ ("constraint c: x = \"a;%\";".toList ++ ("\t".toList ++ "% \"note;".toList))
        = "\t constraint c: x = \"a;%\";\t% \"note;".toList := by decide +kernel
    rw [← text]
    exact margins _ _ _ _ (by decide) (by decide) note _ read

end ConstraintDesk
