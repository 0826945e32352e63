import ConstraintDesk.Desk.Submission
import ConstraintDesk.Proofs.Line.Documents
import ConstraintDesk.Proofs.Text.Occurrence

/-! The way back from the reasoner's lines. A message that names a line is about the statement on that
line, and is shown at the first row of the submitted text that holds the id of that statement. -/
namespace ConstraintDesk

namespace Line

theorem parseNothing (t : Statement) : parse [] ≠ .ok t := by
  have failed : parse [] = .error ⟨Fault.emptyLine.message, Failure.mark [] ⟨.emptyLine, none⟩⟩ := by
    rw [parse, tokens, tokensNil]
    rfl
  rw [failed]
  intro same
  cases same

end Line

namespace Submission

structure IsRowOf (id : String) (lines : List (List Char)) (row : Nat) : Prop where
  here : ∃ line, lines[row]? = some line ∧ id.toList <:+: line
  first : ∀ earlier < row, ∀ line, lines[earlier]? = some line → ¬ id.toList <:+: line

theorem rowOfIff {id : String} {lines : List (List Char)} {row : Nat} :
    rowOf? id lines = some row ↔ IsRowOf id lines row := by
  rw [rowOf?, List.findIdx?_eq_some_iff_getElem]
  constructor
  · rintro ⟨bound, here, first⟩
    refine ⟨⟨lines[row], List.getElem?_eq_getElem bound, Text.occursIff.mp here⟩, ?_⟩
    intro earlier less line found occurs
    obtain ⟨inside, rfl⟩ := List.getElem?_eq_some_iff.mp found
    exact first earlier less (Text.occursIff.mpr occurs)
  · rintro ⟨⟨line, found, occurs⟩, first⟩
    obtain ⟨bound, rfl⟩ := List.getElem?_eq_some_iff.mp found
    refine ⟨bound, Text.occursIff.mpr occurs, fun earlier less occurs => ?_⟩
    exact first earlier less _ (List.getElem?_eq_getElem _) (Text.occursIff.mp occurs)

theorem rowExists {id : String} {lines : List (List Char)} (mentioned : ∃ line ∈ lines, id.toList <:+: line) :
    ∃ row, IsRowOf id lines row := by
  obtain ⟨line, member, occurs⟩ := mentioned
  cases found : rowOf? id lines with
  | some row => exact ⟨row, rowOfIff.mp found⟩
  | none =>
    have nowhere := List.findIdx?_eq_none_iff.mp found line member
    rw [Text.occursIff.mpr occurs] at nowhere
    cases nowhere

/-- A message names the line of a statement that can be read, and the row is the first one that shows
the id of the statement. -/
inductive Locates (s : Submission) (m : Model) (message : List Char) (row : Nat) : Prop
  | found {k : Nat} {st t : Statement} {id : String} (names : Diagnostics.lineReference? message = some k)
      (stands : m.statements[k]? = some st) (own : st.id? = some id) (read : Line.parse st.text = .ok t)
      (first : IsRowOf id (Text.lines s.content.toList) row) : Locates s m message row

theorem lineOfDocument {statements : List Statement} {k : Nat} {text : List Char}
    (there : (statements.map Statement.text ++ [[]])[k]? = some text) :
    (∃ st, statements[k]? = some st ∧ st.text = text) ∨ text = [] := by
  rw [List.getElem?_append] at there
  split at there
  · rw [List.getElem?_map, Option.map_eq_some_iff] at there
    exact Or.inl there
  · exact Or.inr (List.mem_singleton.mp (List.mem_of_getElem? there))

theorem locateIff {m : Model} (accepted : m.Accepted) {k row : Nat} {submitted : List (List Char)} :
    locate? k (m.statements.map Statement.text ++ [[]]) submitted = some row
      ↔ ∃ st id t, m.statements[k]? = some st ∧ st.id? = some id ∧ Line.parse st.text = .ok t
        ∧ IsRowOf id submitted row := by
  simp only [locate?, Option.bind_eq_bind, Option.bind_eq_some_iff, Except.toOption, rowOfIff]
  constructor
  · rintro ⟨text, there, t, read, id, own, first⟩
    have parsed : Line.parse text = .ok t := by
      cases result : Line.parse text with
      | error e => simp [result] at read
      | ok u => simpa [result] using read
    rcases lineOfDocument there with ⟨st, stands, rfl⟩ | rfl
    · have member := List.mem_of_getElem? stands
      obtain ⟨-, rfl⟩ := (Line.parseWritten (accepted.valid.faithful member) (accepted.finite.statement member)).mp
        parsed
      obtain ⟨name, before, after⟩ := Statement.idAsWritten member
      rw [own] at after
      exact ⟨st, id, _, stands, after ▸ before, parsed, first⟩
    · exact absurd parsed (Line.parseNothing t)
  · rintro ⟨st, id, t, stands, own, read, first⟩
    have member := List.mem_of_getElem? stands
    obtain ⟨-, rfl⟩ := (Line.parseWritten (accepted.valid.faithful member) (accepted.finite.statement member)).mp
      read
    obtain ⟨name, before, after⟩ := Statement.idAsWritten member
    rw [own] at before
    refine ⟨st.text, ?_, st.asWritten, by rw [read], id, before ▸ after, first⟩
    have bound := (List.getElem?_eq_some_iff.mp stands).1
    rw [List.getElem?_append_left (by simpa using bound), List.getElem?_map, stands]
    rfl

theorem annotationOfLines {s : Submission} (lines : s.dialect = .dummy) (intermediate : String) (message : List Char) :
    s.annotation? intermediate message = (Diagnostics.lineReference? message).map fun k =>
      .error k 0 (String.ofList (Diagnostics.clean message)) := by
  unfold annotation?
  rw [lines]
  cases Diagnostics.lineReference? message <;> rfl

theorem annotationOfValues {s : Submission} (structured : s.dialect ≠ .dummy) (intermediate : String)
    (message : List Char) :
    s.annotation? intermediate message = (Diagnostics.lineReference? message).bind fun k =>
      (locate? k (Text.lines intermediate.toList) (Text.lines s.content.toList)).map fun row =>
        .error row 0 (String.ofList (Diagnostics.clean message)) := by
  unfold annotation?
  cases same : s.dialect with
  | dummy => exact absurd same structured
  | yaml | json =>
    cases Diagnostics.lineReference? message with
    | none => rfl
    | some k =>
      simp only [Option.bind_eq_bind, Option.bind_some]
      cases locate? k (Text.lines intermediate.toList) (Text.lines s.content.toList) <;> rfl

theorem remapsNothing {s : Submission} {intermediate : String} {o : Outcome}
    (nowhere : ∀ b ∈ Diagnostics.blocks o.stderr.toList, s.annotation? intermediate b = none) :
    s.remapErrors intermediate o = [.error 0 0 (fallbackText o)] := by
  unfold remapErrors
  simp only
  rw [List.filterMap_eq_nil_iff.mpr nowhere]
  rfl

variable {s : Submission} {m : Model} (structured : s.dialect ≠ .dummy) (read : s.model = .ok m)

include structured read

theorem intermediateOfModel : s.intermediate = .ok (String.ofList m.document) := by
  unfold intermediate
  cases same : s.dialect with
  | dummy => exact absurd same structured
  | yaml | json =>
    simp only [read]
    rfl

omit structured

theorem acceptedOfModel : m.Accepted := by
  obtain ⟨v, -, read⟩ := okOfBind read
  cases found : Model.ofJson v with
  | error e =>
    rw [found] at read
    cases read
  | ok n =>
    rw [found] at read
    cases read
    exact Model.acceptedOfJson found

include structured

theorem annotationIff {message : List Char} {a : Annotation} :
    s.annotation? (String.ofList m.document) message = some a
      ↔ ∃ row, Locates s m message row ∧ a = .error row 0 (String.ofList (Diagnostics.clean message)) := by
  have accepted := acceptedOfModel read
  have lines := Model.linesOfValid accepted.valid
  rw [annotationOfValues structured, String.toList_ofList, lines, Option.bind_eq_some_iff]
  simp only [Option.map_eq_some_iff, locateIff accepted]
  constructor
  · rintro ⟨k, names, row, ⟨st, id, t, stands, own, parsed, first⟩, rfl⟩
    exact ⟨row, .found names stands own parsed first, rfl⟩
  · rintro ⟨row, ⟨names, stands, own, parsed, first⟩, rfl⟩
    exact ⟨_, names, row, ⟨_, _, _, stands, own, parsed, first⟩, rfl⟩

theorem remapsLocated {o : Outcome} (located : ∃ b ∈ Diagnostics.blocks o.stderr.toList, ∃ row, Locates s m b row) :
    s.remapErrors (String.ofList m.document) o
      = (Diagnostics.blocks o.stderr.toList).filterMap (s.annotation? (String.ofList m.document)) := by
  obtain ⟨b, member, row, locates⟩ := located
  have inside := List.mem_filterMap.mpr ⟨b, member, (annotationIff structured read).mpr ⟨row, locates, rfl⟩⟩
  unfold remapErrors
  simp only
  rw [if_neg]
  intro empty
  rw [List.isEmpty_iff.mp empty] at inside
  cases inside

theorem remapsNowhere {o : Outcome}
    (nowhere : ∀ b ∈ Diagnostics.blocks o.stderr.toList, ∀ row, ¬ Locates s m b row) :
    s.remapErrors (String.ofList m.document) o = [.error 0 0 (fallbackText o)] := by
  refine remapsNothing fun b member => ?_
  cases found : s.annotation? (String.ofList m.document) b with
  | none => rfl
  | some a =>
    obtain ⟨row, locates, -⟩ := (annotationIff structured read).mp found
    exact absurd locates (nowhere b member row)

theorem remapsInOrder (o : Outcome) :
    s.intermediate = .ok (String.ofList m.document)
      ∧ (∀ message a, s.annotation? (String.ofList m.document) message = some a
        ↔ ∃ row, Locates s m message row ∧ a = .error row 0 (String.ofList (Diagnostics.clean message)))
      ∧ (∀ message k st t id, Diagnostics.lineReference? message = some k → m.statements[k]? = some st →
        st.id? = some id → Line.parse st.text = .ok t →
        (∃ line ∈ Text.lines s.content.toList, id.toList <:+: line) → ∃ row, Locates s m message row)
      ∧ ((∃ b ∈ Diagnostics.blocks o.stderr.toList, ∃ row, Locates s m b row) →
        s.remapErrors (String.ofList m.document) o
          = (Diagnostics.blocks o.stderr.toList).filterMap (s.annotation? (String.ofList m.document)))
      ∧ ((∀ b ∈ Diagnostics.blocks o.stderr.toList, ∀ row, ¬ Locates s m b row) →
        s.remapErrors (String.ofList m.document) o = [.error 0 0 (fallbackText o)]) := by
  refine ⟨intermediateOfModel structured read, fun message a => annotationIff structured read, ?_,
    remapsLocated structured read, remapsNowhere structured read⟩
  intro message k st t id names stands own parsed shown
  obtain ⟨row, first⟩ := rowExists shown
  exact ⟨row, .found names stands own parsed first⟩

end Submission

theorem Submission.remapsNamedConstraint :
    ∃ row, Locates ⟨.yaml, "constraints:\n- id: c1\n  expression: x\n"⟩
        ⟨[], [], [⟨"c1", "x"⟩], none⟩ "model.dummy:1: bad".toList row
      ∧ annotation? ⟨.yaml, "constraints:\n- id: c1\n  expression: x\n"⟩
          (String.ofList (Model.document ⟨[], [], [⟨"c1", "x"⟩], none⟩)) "model.dummy:1: bad".toList
        = some (.error row 0 (String.ofList (Diagnostics.clean "model.dummy:1: bad".toList))) := by
  have read : model ⟨.yaml, "constraints:\n- id: c1\n  expression: x\n"⟩
      = .ok ⟨[], [], [⟨"c1", "x"⟩], none⟩ := okOfToOption (by decide +kernel)
  have parsed : Line.parse (Statement.text (.constraints [⟨"c1", "x"⟩])) = .ok (.constraints [⟨"c1", "x"⟩]) :=
    okOfToOption (by decide +kernel)
  have shown : ∃ line ∈ Text.lines "constraints:\n- id: c1\n  expression: x\n".toList,
      "c1".toList <:+: line :=
    ⟨"- id: c1".toList, by decide +kernel, Text.occursIff.mp (by decide +kernel)⟩
  obtain ⟨-, annotates, locates, -⟩ := remapsInOrder (by decide) read (.failure "failed" "model.dummy:1: bad")
  obtain ⟨row, found⟩ := locates "model.dummy:1: bad".toList 0 (.constraints [⟨"c1", "x"⟩]) _ "c1"
    (by decide +kernel) rfl rfl parsed shown
  exact ⟨row, found, (annotates _ _).mpr ⟨row, found, rfl⟩⟩

namespace Submission

theorem rowInside {id : String} {lines : List (List Char)} {row : Nat} (found : rowOf? id lines = some row) :
    row < lines.length := by
  obtain ⟨line, there, -⟩ := (rowOfIff.mp found).here
  exact (List.getElem?_eq_some_iff.mp there).1

def NamesOwnLines (s : Submission) (o : Outcome) : Prop :=
  ∀ b ∈ Diagnostics.blocks o.stderr.toList, ∀ k, Diagnostics.lineReference? b = some k →
    k < (Text.lines s.content.toList).length

variable {s : Submission} {intermediate : String} {a : Annotation} {o : Outcome}

theorem rowOfStructured {message : List Char} (structured : s.dialect ≠ .dummy)
    (found : s.annotation? intermediate message = some a) : a.row < (Text.lines s.content.toList).length := by
  rw [annotationOfValues structured] at found
  obtain ⟨k, -, found⟩ := Option.bind_eq_some_iff.mp found
  obtain ⟨row, located, rfl⟩ := Option.map_eq_some_iff.mp found
  simp only [locate?, Option.bind_eq_bind, Option.bind_eq_some_iff] at located
  obtain ⟨text, -, statement, -, id, -, first⟩ := located
  exact rowInside first

theorem remapCases (s : Submission) (intermediate : String) (o : Outcome) :
    s.remapErrors intermediate o = [.error 0 0 (fallbackText o)]
      ∨ s.remapErrors intermediate o = (Diagnostics.blocks o.stderr.toList).filterMap (s.annotation? intermediate) := by
  unfold remapErrors
  simp only
  split
  · exact Or.inl rfl
  · exact Or.inr rfl

theorem remapsLocatedBlock {b : List Char} (member : b ∈ Diagnostics.blocks o.stderr.toList)
    (found : s.annotation? intermediate b = some a) : a ∈ s.remapErrors intermediate o := by
  have inside := List.mem_filterMap.mpr ⟨b, member, found⟩
  unfold remapErrors
  simp only
  rw [if_neg]
  · exact inside
  · intro empty
    rw [List.isEmpty_iff.mp empty] at inside
    cases inside

/-- The annotations of a failed run point at rows of the submitted text, whatever the messages say, if
it is a document of values. Of a document of statement lines they all do exactly if no message names a
line beyond its end. -/
theorem rowsPointInside (s : Submission) (intermediate : String) (o : Outcome) :
    (∀ a ∈ s.remapErrors intermediate o, a.row < (Text.lines s.content.toList).length)
      ↔ (s.dialect = .dummy → s.NamesOwnLines o) := by
  constructor
  · intro inside lines b member k names
    have found : s.annotation? intermediate b = some (.error k 0 (String.ofList (Diagnostics.clean b))) := by
      rw [annotationOfLines lines, names]
      rfl
    exact inside _ (remapsLocatedBlock member found)
  · intro own a member
    rcases remapCases s intermediate o with fallback | located
    · rw [fallback] at member
      rw [List.mem_singleton.mp member]
      exact Text.linesPos _
    · rw [located] at member
      obtain ⟨b, inside, found⟩ := List.mem_filterMap.mp member
      by_cases lines : s.dialect = .dummy
      · rw [annotationOfLines lines, Option.map_eq_some_iff] at found
        obtain ⟨k, names, rfl⟩ := found
        exact own lines b inside k names
      · exact rowOfStructured lines found

theorem rowBeyondTheEnd :
    (Submission.mk .dummy "solve satisfy;").intermediate = .ok "solve satisfy;"
      ∧ ∃ a ∈ remapErrors ⟨.dummy, "solve satisfy;"⟩ "solve satisfy;" (.failure "exit status: 1" "model.dummy:40: gone"),
        ¬ a.row < (Text.lines "solve satisfy;".toList).length := by
  refine ⟨rfl, .error 39 0 "gone", ?_, by decide⟩
  decide +kernel

end Submission

end ConstraintDesk
