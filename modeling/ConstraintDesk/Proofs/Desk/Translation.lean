import ConstraintDesk.Desk.Session
import ConstraintDesk.Proofs.Model.Encoding

/-! Documents of statement lines that are written in another dialect and back. The way out is always
open; the way back is open exactly to the models without a flaw, because a value has to stand for a
valid model while a document of lines need not. -/
namespace ConstraintDesk

theorem Dialect.ofNameOfName (d : Dialect) : ofName d.name = .ok d := by
  cases d <;> rfl

namespace Operations

theorem checkLines {text : String} (filled : text ≠ "") :
    (check Dialect.dummy.name text).isOk = true ↔ ∃ m, Line.parseDocument text.toList = .ok m := by
  have notEmpty : text.isEmpty = false := by simpa using filled
  rw [check, if_neg (by simp [notEmpty]), Dialect.ofNameOfName]
  simp only [Dialect.check, Dialect.parse]
  cases Line.parseDocument text.toList with
  | error e => simp [Except.map, Except.mapError, refusal, problem, Envelope.isOk, Envelope.problems]
  | ok m => simp [Except.map, Except.mapError, Envelope.isOk, Envelope.ok]

end Operations

namespace Conversion

variable {text t : String} {m : Model} {d : Dialect}

def translated (t : String) : Envelope := .okWith "The content has been translated" (some (.string t))

theorem translatedInj {t u : String} (same : translated t = translated u) : t = u := by
  simpa [translated, Envelope.okWith] using same

theorem answerOfDistinct {s d : Dialect} (other : s ≠ d) (filled : text ≠ "") :
    answer s.name d.name text = match convert s d text with
      | .ok t => translated t
      | .error e => .error s!"Error while translating: {e.message}" := by
  have notEmpty : text.isEmpty = false := by simpa using filled
  rw [answer, if_neg (by simp [notEmpty]), Dialect.ofNameOfName, Dialect.ofNameOfName]
  simp only [isSupported, other, ne_eq, not_false_eq_true, decide_true, if_true]
  rfl

theorem serializeStructured (other : d ≠ .dummy) (v : Json) : ∃ t, d.serialize v = .ok t := by
  cases d with
  | dummy => exact absurd rfl other
  | yaml => exact ⟨_, rfl⟩
  | json => exact ⟨_, rfl⟩

theorem convertOut (read : Line.parseDocument text.toList = .ok m) :
    convert .dummy d text = d.serialize m.toJson := by
  simp only [convert, Dialect.parse, read]
  rfl

theorem convertBack (back : d.parse t = .ok m.toJson) (finite : m.IsFinite) :
    convert d .dummy t = match m.invalid? with
      | none => .ok (String.ofList m.document)
      | some i => .error (.model (.invalid i)) := by
  simp only [convert, back, bind, Except.bind, Dialect.serialize, Model.ofJsonToJson finite, Model.validate]
  cases m.invalid? <;> rfl

theorem convertInfinite (back : d.parse t = .ok m.toJson) (infinite : ¬ m.IsFinite) :
    ∃ e, convert d .dummy t = .error (.model (.shape e)) := by
  cases read : Model.decode m.toJson with
  | ok n => exact absurd (Model.finiteOfRead read) infinite
  | error e =>
    have refused : Model.ofJson m.toJson = .error (.shape e) := by rw [Model.ofJsonEq, read]
    refine ⟨e, ?_⟩
    simp only [convert, back, bind, Except.bind, Dialect.serialize, refused]
    rfl

def isObject : Json → Bool
  | .object _ => true
  | _ => false

theorem emptyIsNoModel (other : d ≠ .dummy) (back : d.parse t = .ok m.toJson) : t ≠ "" := by
  rintro rfl
  have plain : (d.parse "").toOption.any isObject = false := by
    cases d with
    | dummy => exact absurd rfl other
    | yaml => decide +kernel
    | json => decide +kernel
  rw [back] at plain
  cases plain

end Conversion

/-- Every document of lines can be written as a value. Where the written value reads as the model it was
made of, the way back ends at the model's document if no item has a flaw, and else at the flaw; a model
with an infinite literal does not come back. -/
theorem linesThereAndBack {text : String} (notEmpty : text ≠ "")
    (wellFormed : (Operations.check Dialect.dummy.name text).isOk = true) {d : Dialect} (structured : d ≠ .dummy) :
    ∃ m t, Line.parseDocument text.toList = .ok m
      ∧ Conversion.answer Dialect.dummy.name d.name text = Conversion.translated t
      ∧ (d.parse t = .ok m.toJson →
          (m.IsFinite → Conversion.answer d.name Dialect.dummy.name t = match m.invalid? with
            | none => Conversion.translated (String.ofList m.document)
            | some i => .error s!"Error while translating: {i.message}")
          ∧ (¬ m.IsFinite → (Conversion.answer d.name Dialect.dummy.name t).isOk = false)) := by
  obtain ⟨m, read⟩ := (Operations.checkLines notEmpty).mp wellFormed
  obtain ⟨t, written⟩ := Conversion.serializeStructured structured m.toJson
  refine ⟨m, t, read, ?_, fun back => ⟨fun finite => ?_, fun infinite => ?_⟩⟩
  · rw [Conversion.answerOfDistinct structured.symm notEmpty, Conversion.convertOut read, written]
  · rw [Conversion.answerOfDistinct structured (Conversion.emptyIsNoModel structured back),
      Conversion.convertBack back finite]
    cases m.invalid? <;> rfl
  · obtain ⟨e, refused⟩ := Conversion.convertInfinite back infinite
    rw [Conversion.answerOfDistinct structured (Conversion.emptyIsNoModel structured back), refused]
    rfl

def boundedText : String := "int: p = 3;\nvar 0..9: x;\nconstraint c: x < p;\nsolve maximize x;\n"

def boundedModel : Model :=
  ⟨[⟨"p", .int, .int 3⟩], [⟨"x", .int, some ⟨.int 0, .int 9⟩⟩], [⟨"c", "x < p"⟩], some ⟨.maximize, some "x"⟩⟩

theorem boundedThereAndBack :
    Conversion.answer Dialect.dummy.name Dialect.yaml.name boundedText
        = Conversion.translated (Yaml.write boundedModel.toJson)
      ∧ Conversion.answer Dialect.yaml.name Dialect.dummy.name (Yaml.write boundedModel.toJson)
        = Conversion.translated boundedText := by
  have model : Line.parseDocument boundedText.toList = .ok boundedModel := okOfToOption (by decide +kernel)
  have filled : boundedText ≠ "" := by decide
  have wellFormed : (Operations.check Dialect.dummy.name boundedText).isOk = true :=
    (Operations.checkLines filled).mpr ⟨_, model⟩
  have finite : boundedModel.IsFinite := by
    refine ⟨List.forall_mem_singleton.mpr trivial, List.forall_mem_singleton.mpr ?_⟩
    rintro r ⟨⟩
    exact ⟨trivial, trivial⟩
  have valid : boundedModel.invalid? = none := by decide +kernel
  have document : boundedModel.document = boundedText.toList := by decide +kernel
  have parsed : Dialect.yaml.parse (Yaml.write boundedModel.toJson) = .ok boundedModel.toJson :=
    okOfToOption (by decide +kernel)
  have out : Conversion.answer Dialect.dummy.name Dialect.yaml.name boundedText
      = Conversion.translated (Yaml.write boundedModel.toJson) := by
    rw [Conversion.answerOfDistinct (by decide) filled, Conversion.convertOut model]
    rfl
  obtain ⟨m, t, read, there, back⟩ := linesThereAndBack filled wellFormed (d := .yaml) (by decide)
  obtain rfl := Except.ok.inj (model.symm.trans read)
  obtain rfl := Conversion.translatedInj (out.symm.trans there)
  have home := (back parsed).1 finite
  rw [valid, document, String.ofList_toList] at home
  exact ⟨out, home⟩

theorem colonInIdStaysThere :
    (Operations.check Dialect.dummy.name "bool: a:b = true;").isOk = true
      ∧ ∃ t, Conversion.answer Dialect.dummy.name Dialect.json.name "bool: a:b = true;" = Conversion.translated t
        ∧ (Conversion.answer Dialect.json.name Dialect.dummy.name t).isOk = false := by
  have read : Line.parseDocument "bool: a:b = true;".toList = .ok ⟨[⟨"a:b", .bool, .bool true⟩], [], [], none⟩ :=
    okOfToOption (by decide +kernel)
  have refused : (Conversion.answer Dialect.json.name Dialect.dummy.name
      (Json.pretty 0 (Model.toJson ⟨[⟨"a:b", .bool, .bool true⟩], [], [], none⟩))).isOk = false := by decide +kernel
  refine ⟨(Operations.checkLines (by decide)).mpr ⟨_, read⟩, _, ?_, refused⟩
  rw [Conversion.answerOfDistinct (by decide) (by decide), Conversion.convertOut read]
  rfl

end ConstraintDesk
