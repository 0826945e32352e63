import ConstraintDesk.Proofs.Desk.Operations

/-! What the operations make of one document. There is one way from a document of values to the text for
the reasoner, and one kind of failure that is a problem of the document itself, so the answers to
different requests can be told from one another's. -/
namespace ConstraintDesk

structure Consultation (α : Type) where
  answer : α
  documents : List String

def consult {α : Type} (reasoner : List String → Outcome)
    (operation : (String → StateM (List String) Outcome) → StateM (List String) α) : Consultation α :=
  let result := (operation fun text given => (reasoner (given ++ [text]), given ++ [text])).run []
  ⟨result.1, result.2⟩

def consistency (reasoner : List String → Outcome) (d : Dialect) (content : String) : Consultation Envelope :=
  consult reasoner fun solve => Operations.checkConsistency solve d.name content

def execution (reasoner : List String → Outcome) (content : String) (format : ExecuteFormat) : Consultation Response :=
  consult reasoner fun solve => Operations.execute solve content format

theorem Submission.intermediateIsConversion {d : Dialect} (structured : d ≠ .dummy) (content : String) :
    (Submission.mk d content).intermediate = Conversion.convert d .dummy content := by
  cases d with
  | dummy => exact absurd rfl structured
  | yaml | json =>
    simp only [intermediate, model, Conversion.convert, Dialect.serialize]
    cases Dialect.parse _ content with
    | error e => rfl
    | ok v =>
      simp only [bind, Except.bind]
      cases Model.ofJson v <;> rfl

variable {d : Dialect} {content : String} (reasoner : List String → Outcome)

theorem translationOfValues (structured : d ≠ .dummy) (filled : content ≠ "") :
    Conversion.answer d.name Dialect.dummy.name content = match (Submission.mk d content).intermediate with
      | .ok text => Conversion.translated text
      | .error e => .error s!"Error while translating: {e.message}" := by
  rw [Submission.intermediateIsConversion structured]
  exact Conversion.answerOfDistinct structured filled

theorem consistencyEq (filled : content ≠ "") :
    consistency reasoner d content = match (Submission.mk d content).intermediate with
      | .ok text => ⟨if (reasoner [text]).isError then
          .problems ((Submission.mk d content).remapErrors text (reasoner [text])) else .ok, [text]⟩
      | .error e => ⟨Operations.refusal "checking consistency" e, []⟩ := by
  generalize intermediate : (Submission.mk d content).intermediate = made
  cases made with
  | error e =>
    rw [consistency, consult, Operations.consistencyOfRefused _ filled intermediate]
    rfl
  | ok text =>
    rw [consistency, consult, Operations.consistencyOfText _ filled intermediate]
    rfl

theorem executionEq (content : String) (format : ExecuteFormat) :
    execution reasoner content format = match (Submission.mk .yaml content).intermediate with
      | .ok text => ⟨Operations.solved content text format (reasoner [text]), [text]⟩
      | .error e => ⟨.envelope (Operations.refusal "executing" e), []⟩ := by
  generalize intermediate : (Submission.mk .yaml content).intermediate = made
  cases made with
  | error e =>
    rw [execution, consult, Operations.executeRefused _ intermediate]
    rfl
  | ok text =>
    rw [execution, consult, Operations.executeText _ intermediate]
    rfl

theorem intermediateOfFlawed (structured : d ≠ .dummy) {v : Json} {e : ModelError} (read : d.parse content = .ok v)
    (flawed : Model.ofJson v = .error e) : (Submission.mk d content).intermediate = .error (.model e) := by
  rw [Submission.intermediateIsConversion structured]
  simp only [Conversion.convert, read, bind, Except.bind, Dialect.serialize, flawed]
  rfl

theorem intermediateOfMalformed (structured : d ≠ .dummy) {x : DocumentError} (failed : d.parse content = .error x) :
    (Submission.mk d content).intermediate = .error x := by
  rw [Submission.intermediateIsConversion structured]
  simp only [Conversion.convert, failed, bind, Except.bind]

structure SameText {α : Type} (translation : Envelope) (asked : Consultation α) : Prop where
  asks : translation.isOk = true ↔ asked.documents ≠ []
  document : translation.isOk = true → ∃ text, translation = Conversion.translated text ∧ asked.documents = [text]

theorem sameTextOf {α : Type} {made : Except DocumentError String} {translation : Envelope} {asked : Consultation α}
    (translates : translation = match made with
      | .ok text => Conversion.translated text
      | .error e => .error s!"Error while translating: {e.message}")
    (asks : asked.documents = made.toOption.toList) : SameText translation asked := by
  cases made with
  | ok text =>
    have ok : translation.isOk = true := by simp [translates, Conversion.translated, Envelope.okWith, Envelope.isOk]
    exact ⟨iff_of_true ok (by simp [asks, Except.toOption]), fun _ => ⟨text, translates, asks⟩⟩
  | error e =>
    have refused : translation.isOk ≠ true := by simp [translates, Envelope.error, Envelope.isOk]
    exact ⟨iff_of_false refused (by simp [asks, Except.toOption]), fun ok => absurd ok refused⟩

theorem sameTextOfConsistency (structured : d ≠ .dummy) (filled : content ≠ "") :
    SameText (Conversion.answer d.name Dialect.dummy.name content) (consistency reasoner d content) := by
  refine sameTextOf (translationOfValues structured filled) ?_
  rw [consistencyEq reasoner filled]
  cases (Submission.mk d content).intermediate <;> rfl

theorem sameTextOfExecution (filled : content ≠ "") (format : ExecuteFormat) :
    SameText (Conversion.answer Dialect.yaml.name Dialect.dummy.name content) (execution reasoner content format) := by
  refine sameTextOf (translationOfValues (d := .yaml) (by decide) filled) ?_
  rw [executionEq]
  generalize (Submission.mk .yaml content).intermediate = made
  cases made <;> rfl

theorem reportCarriesDocument {format : ExecuteFormat} {r : Report}
    (reported : (execution reasoner content format).answer = .report r) :
    (execution reasoner content format).documents = [r.document] := by
  rw [executionEq] at reported ⊢
  generalize (Submission.mk .yaml content).intermediate = made at *
  cases made with
  | error e => cases reported
  | ok text =>
    simp only [Operations.solved] at reported
    split at reported
    · cases reported
      rfl
    · cases reported

/-- A document of values is translated exactly if the reasoner is asked about it, and then the one document
that the reasoner is given is the translation, whether for a check or for a solution. A document that can
be read and is no model is refused by all of them for the same reason. -/
theorem translationIsWhatTheReasonerGets (structured : d ≠ .dummy) (filled : content ≠ "") :
    SameText (Conversion.answer d.name Dialect.dummy.name content) (consistency reasoner d content)
      ∧ (d = .yaml → ∀ format,
        SameText (Conversion.answer d.name Dialect.dummy.name content) (execution reasoner content format)
        ∧ ∀ r, (execution reasoner content format).answer = .report r →
          (execution reasoner content format).documents = [r.document])
      ∧ ∀ v e, d.parse content = .ok v → Model.ofJson v = .error e →
        Conversion.answer d.name Dialect.dummy.name content = .error s!"Error while translating: {e.message}"
        ∧ consistency reasoner d content = ⟨.error s!"Error while checking consistency: {e.message}", []⟩
        ∧ (d = .yaml → ∀ format,
          execution reasoner content format = ⟨.envelope (.error s!"Error while executing: {e.message}"), []⟩) := by
  refine ⟨sameTextOfConsistency reasoner structured filled, ?_, fun v e read flawed => ?_⟩
  · rintro rfl format
    exact ⟨sameTextOfExecution reasoner filled format, fun r => reportCarriesDocument reasoner⟩
  · have refused := intermediateOfFlawed structured read flawed
    refine ⟨?_, ?_, ?_⟩
    · rw [translationOfValues structured filled, refused]
      rfl
    · rw [consistencyEq reasoner filled, refused]
      rfl
    · rintro rfl format
      rw [executionEq, refused]
      rfl

theorem constraintForTheReasoner :
    ∃ text, Conversion.answer Dialect.yaml.name Dialect.dummy.name "constraints:\n- id: c1\n  expression: x\n"
        = Conversion.translated text
      ∧ (consistency (fun _ => .success "" true) .yaml "constraints:\n- id: c1\n  expression: x\n").documents
        = [text] := by
  have made : (Submission.mk .yaml "constraints:\n- id: c1\n  expression: x\n").intermediate
      = .ok "constraint c1: x;\n" := okOfToOption (by decide +kernel)
  have filled : "constraints:\n- id: c1\n  expression: x\n" ≠ "" := by decide
  obtain ⟨checked, -, -⟩ :=
    translationIsWhatTheReasonerGets (fun _ => .success "" true) (d := .yaml) (by decide) filled
  refine checked.document ?_
  rw [translationOfValues (d := .yaml) (by decide) filled, made]
  rfl

theorem errorOfMapError {ε δ α : Type} {x : Except ε α} {f : ε → δ} {e : δ} (failed : x.mapError f = .error e) :
    ∃ own, x = .error own ∧ f own = e := by
  cases x with
  | ok a => cases failed
  | error own => exact ⟨own, rfl, Except.error.inj failed⟩

theorem Dialect.parseFails {x : DocumentError} (failed : d.parse content = .error x) : ∃ e, x = .malformed e := by
  cases d with
  | yaml | json | dummy =>
    obtain ⟨own, -, same⟩ := errorOfMapError failed
    exact ⟨_, same.symm⟩

theorem checkEq (filled : content ≠ "") :
    Operations.check d.name content = match d.parse content with
      | .ok _ => .ok
      | .error e => Operations.refusal "checking" e := by
  have notEmpty : content.isEmpty = false := by simpa using filled
  simp only [Operations.check, notEmpty, Dialect.ofNameOfName, Bool.false_eq_true, if_false, Dialect.check]
  cases d.parse content <;> rfl

theorem answerOfMalformed {other : Dialect} (distinct : other ≠ d) (filled : content ≠ "") {x : DocumentError}
    (failed : d.parse content = .error x) :
    Conversion.answer d.name other.name content = .error s!"Error while translating: {x.message}" := by
  rw [Conversion.answerOfDistinct distinct.symm filled]
  simp only [Conversion.convert, failed, bind, Except.bind]

theorem answerOfRead {other : Dialect} (distinct : other ≠ d) (filled : content ≠ "") {v : Json}
    (read : d.parse content = .ok v) :
    Conversion.answer d.name other.name content = match other.serialize v with
      | .ok text => Conversion.translated text
      | .error e => .error s!"Error while translating: {e.message}" := by
  have converted : Conversion.convert d other content = other.serialize v := by
    simp only [Conversion.convert, read, bind, Except.bind]
  rw [← converted]
  exact Conversion.answerOfDistinct distinct.symm filled

structure IsMalformed (d : Dialect) (content : String) (e : SyntaxError) : Prop where
  check : Operations.check d.name content = .problems [.error e.mark.line e.mark.column e.reason]
  consistency : d ≠ .dummy →
    consistency reasoner d content = ⟨.problems [.error e.mark.line e.mark.column e.reason], []⟩
  execution : d = .yaml → ∀ format,
    execution reasoner content format = ⟨.envelope (.problems [.error e.mark.line e.mark.column e.reason]), []⟩
  translation : ∀ other ≠ d, Conversion.answer d.name other.name content
    = .error s!"Error while translating: {e.reason} at line {e.mark.line + 1} column {e.mark.column + 1}"

structure IsWellFormed (d : Dialect) (content : String) (v : Json) : Prop where
  check : Operations.check d.name content = .ok
  consistency : d ≠ .dummy →
    (∃ e : ModelError, Model.ofJson v = .error e
      ∧ consistency reasoner d content = ⟨.error s!"Error while checking consistency: {e.message}", []⟩)
    ∨ ∃ text, consistency reasoner d content = ⟨if (reasoner [text]).isError then
        .problems ((Submission.mk d content).remapErrors text (reasoner [text])) else .ok, [text]⟩
  execution : d = .yaml → ∀ format,
    (∃ e : ModelError, Model.ofJson v = .error e
      ∧ execution reasoner content format = ⟨.envelope (.error s!"Error while executing: {e.message}"), []⟩)
    ∨ ∃ text, execution reasoner content format
      = ⟨Operations.solved content text format (reasoner [text]), [text]⟩
  translation : ∀ other ≠ d, (∃ text, Conversion.answer d.name other.name content = Conversion.translated text)
    ∨ other = .dummy ∧ ∃ e : ModelError, Model.ofJson v = .error e
      ∧ Conversion.answer d.name other.name content = .error s!"Error while translating: {e.message}"

theorem isMalformed (filled : content ≠ "") {e : SyntaxError} (failed : d.parse content = .error (.malformed e)) :
    IsMalformed reasoner d content e := by
  constructor
  · rw [checkEq filled, failed]
    rfl
  · intro structured
    rw [consistencyEq reasoner filled, intermediateOfMalformed structured failed]
    rfl
  · rintro rfl format
    rw [executionEq, intermediateOfMalformed (by decide) failed]
    rfl
  · intro other distinct
    rw [answerOfMalformed distinct filled failed]
    rfl

theorem intermediateOfRead (structured : d ≠ .dummy) {v : Json} (read : d.parse content = .ok v) :
    (∃ text, (Submission.mk d content).intermediate = .ok text)
      ∨ ∃ e, Model.ofJson v = .error e ∧ (Submission.mk d content).intermediate = .error (.model e) := by
  cases made : Model.ofJson v with
  | error e => exact Or.inr ⟨e, rfl, intermediateOfFlawed structured read made⟩
  | ok m =>
    left
    refine ⟨String.ofList m.document, ?_⟩
    rw [Submission.intermediateIsConversion structured]
    simp only [Conversion.convert, read, bind, Except.bind, Dialect.serialize, made]
    rfl

theorem isWellFormed (filled : content ≠ "") {v : Json} (read : d.parse content = .ok v) :
    IsWellFormed reasoner d content v := by
  constructor
  · rw [checkEq filled, read]
  · intro structured
    rw [consistencyEq reasoner filled]
    rcases intermediateOfRead structured read with ⟨text, made⟩ | ⟨e, flawed, made⟩
    · exact .inr ⟨text, by rw [made]⟩
    · exact .inl ⟨e, flawed, by rw [made]; rfl⟩
  · rintro rfl format
    rw [executionEq]
    rcases intermediateOfRead (by decide) read with ⟨text, made⟩ | ⟨e, flawed, made⟩
    · exact .inr ⟨text, by rw [made]⟩
    · exact .inl ⟨e, flawed, by rw [made]; rfl⟩
  · intro other distinct
    rw [answerOfRead distinct filled read]
    cases other with
    | yaml | json => exact Or.inl ⟨_, rfl⟩
    | dummy =>
      simp only [Dialect.serialize]
      cases flawed : Model.ofJson v with
      | ok m => exact Or.inl ⟨_, rfl⟩
      | error e => exact Or.inr ⟨trivial, e, rfl, rfl⟩

theorem parseLines : Dialect.dummy.parse content = match Line.parseDocument content.toList with
    | .ok m => .ok m.toJson
    | .error e => .error (.malformed e) := by
  simp only [Dialect.parse]
  cases Line.parseDocument content.toList <;> rfl

/-- A malformed document gets one answer from all operations but the translation, a problem at the mark of
its error, and the translation gives the same error with its place; a document that can be read gets a
syntax error from none. Of statement lines that is decided by reading them as a model. -/
theorem syntaxErrorsAgree (filled : content ≠ "") :
    (∀ x, d.parse content = .error x → ∃ e, x = .malformed e ∧ IsMalformed reasoner d content e)
      ∧ (∀ v, d.parse content = .ok v → IsWellFormed reasoner d content v)
      ∧ (∀ e, Line.parseDocument content.toList = .error e → IsMalformed reasoner .dummy content e)
      ∧ ∀ m, Line.parseDocument content.toList = .ok m → IsWellFormed reasoner .dummy content m.toJson := by
  refine ⟨fun x failed => ?_, fun v => isWellFormed reasoner filled, fun e failed => ?_, fun m read => ?_⟩
  · obtain ⟨e, rfl⟩ := Dialect.parseFails failed
    exact ⟨e, rfl, isMalformed reasoner filled failed⟩
  · exact isMalformed reasoner filled (by rw [parseLines, failed])
  · exact isWellFormed reasoner filled (by rw [parseLines, read])

theorem indentedKeyIsMalformed :
    ∃ e, Dialect.yaml.parse "a: 1\n  b: 2\n" = .error (.malformed e)
      ∧ consistency (fun _ => .success "" true) .yaml "a: 1\n  b: 2\n"
        = ⟨Operations.check Dialect.yaml.name "a: 1\n  b: 2\n", []⟩ := by
  have unread : (Dialect.yaml.parse "a: 1\n  b: 2\n").toOption = none := by decide +kernel
  have filled : "a: 1\n  b: 2\n" ≠ "" := by decide
  obtain ⟨malformed, -⟩ := syntaxErrorsAgree (d := .yaml) (fun _ => .success "" true) filled
  cases failed : Dialect.yaml.parse "a: 1\n  b: 2\n" with
  | ok v =>
    rw [failed] at unread
    cases unread
  | error x =>
    obtain ⟨e, rfl, answers⟩ := malformed x failed
    exact ⟨e, rfl, by rw [answers.consistency (by decide), answers.check]⟩

end ConstraintDesk
