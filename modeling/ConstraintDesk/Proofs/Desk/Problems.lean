import ConstraintDesk.Proofs.Desk.Agreement
import ConstraintDesk.Proofs.Json.Places
import ConstraintDesk.Proofs.Yaml.Messages

/-! How the problems of a text are reported. The reason names a place, which its mark tells already, in YAML alone:
the last place of a message is cut off, so the reason has one when the message has another. The row of a problem in a
JSON text is one of the text, and the column counts the bytes of the line in front of the place, so it is a column of
the text as long as only ASCII stands there. -/
namespace ConstraintDesk

open Text

theorem Json.Fault.silent (f : Json.Fault) : ¬ placeWords <:+: f.message.toList := by
  cases f <;> exact silentAlone (by decide)

theorem Json.Failure.reason (f : Json.Failure) : Dialect.stripPlace f.message = f.fault.message := by
  obtain ⟨c, back, told, other, later⟩ := placeSpelled (f.place.line + 1) f.place.column
  have spelled : f.message.toList = f.fault.message.toList ++ (placeWords ++ c :: back) := by
    rw [← told, Json.Failure.message]
    simp only [String.toList_append, List.append_assoc]
    rfl
  rw [← String.toList_inj, toListStripPlace, spelled]
  exact cutOfPlace _ other (notInfix (by rw [placeWordsEq]; decide) later)

theorem placesInReasons {d : Dialect} (structured : d ≠ .dummy) {content : String} {e : SyntaxError}
    (failed : d.parse content = .error (.malformed e)) :
    (placeWords <:+: e.reason.toList
      ↔ d = .yaml ∧ ∃ m : Yaml.Misreading, Yaml.read content.toList = .error m ∧ m.LeavesPlace)
    ∧ (content ≠ "" → Operations.check d.name content = .problems [.error e.mark.line e.mark.column e.reason]) := by
  refine ⟨?_, fun filled => by rw [checkEq filled, failed]; rfl⟩
  cases d with
  | dummy => exact absurd rfl structured
  | json =>
    obtain ⟨f, read, same⟩ := errorOfMapError failed
    obtain rfl : Dialect.jsonError f = e := DocumentError.malformed.inj same
    rw [Dialect.jsonError, f.reason]
    exact iff_of_false f.fault.silent (fun h => by cases h.1)
  | yaml =>
    obtain ⟨m, read, same⟩ := errorOfMapError failed
    obtain rfl : Dialect.yamlError m = e := DocumentError.malformed.inj same
    rw [Dialect.yamlError, toListStripPlace, Yaml.Misreading.placeOfReason (Yaml.isRefusal read)]
    simp [read]

theorem errorOfSome {ε α : Type} {x : Except ε α} {e : ε}
    (h : (match x with | .ok _ => none | .error own => some own) = some e) : x = .error e := by
  cases x with
  | ok a => cases h
  | error own => exact congrArg Except.error (Option.some.inj h)

theorem openListNamesTwoPlaces :
    Dialect.yaml.parse "a: [1" = .error (.malformed
      ⟨"did not find expected ',' or ']' at line 2 column 1, while parsing a flow sequence", ⟨1, 0⟩⟩)
    ∧ placeWords <:+: "did not find expected ',' or ']' at line 2 column 1, while parsing a flow sequence".toList := by
  constructor
  · exact errorOfSome (by decide +kernel)
  · exact occursIff.mp (by decide +kernel)

theorem nestedMappingNamesNone :
    ¬ ∃ m : Yaml.Misreading, Yaml.read "a: b: c".toList = .error m ∧ m.LeavesPlace := by
  have failed : Dialect.yaml.parse "a: b: c" = .error (.malformed
      ⟨"mapping values are not allowed in this context", ⟨0, 4⟩⟩) :=
    errorOfSome (by decide +kernel)
  have silent : ¬ placeWords <:+: "mapping values are not allowed in this context".toList := by
    rw [← occursIff]
    decide +kernel
  exact fun named => silent ((placesInReasons (by decide) failed).1.mpr ⟨rfl, named⟩)

/-- A mark whose column counts the bytes of its line, which starts at the offset `start` of the text. -/
structure CountsBytes (text : List Char) (m : Mark) (line : List Char) (start : Nat) : Prop where
  row : (lines text)[m.line]? = some line
  along : ∀ n ≤ byteLength line, Mark.ofOffset text (start + n) = ⟨m.line, (takeBytes n line).length⟩
  inside : m.column ≤ byteLength line

namespace CountsBytes

variable {text line : List Char} {m : Mark} {start : Nat}

theorem ofOffset (h : CountsBytes text m line start) :
    m = Mark.ofOffset text (start + m.column) ↔ ∀ c ∈ line.take m.column, c.utf8Size = 1 := by
  rw [h.along _ h.inside, ← takeBytesExact h.inside]
  obtain ⟨row, column⟩ := m
  simp only [Mark.mk.injEq, true_and]
  exact eq_comm

theorem columnOfAscii (h : CountsBytes text m line start) (ascii : ∀ c ∈ line.take m.column, c.utf8Size = 1) :
    m.column ≤ line.length := by
  rw [← (takeBytesExact h.inside).mpr ascii]
  exact (takeBytesPrefix _ _).length_le

end CountsBytes

theorem Json.Within.countsBytes {text : List Char} {m : Mark} (within : Json.Within text m) :
    ∃ line start, CountsBytes text (Mark.ofOneBased (m.line + 1) m.column) line start := by
  obtain ⟨done, piece, row, inside⟩ := within
  have returned := byteLengthDropReturn piece
  have shorter := byteLengthOfPrefix (dropReturnPrefix piece)
  refine ⟨dropReturn piece, byteLength done, row.line, fun n within => ?_, ?_⟩
  · obtain ⟨back, same⟩ := dropReturnPrefix piece
    rw [← takeBytesWithin within back, same]
    exact row.ofOffset (by omega)
  · simp only [Mark.ofOneBased]
    omega

theorem jsonProblemsOnTheirLines {content : String} {e : SyntaxError}
    (failed : Dialect.json.parse content = .error (.malformed e)) :
    ∃ line start, CountsBytes content.toList e.mark line start
      ∧ (e.mark = Mark.ofOffset content.toList (start + e.mark.column) ↔ ∀ c ∈ line.take e.mark.column, c.utf8Size = 1)
      ∧ ((∀ c ∈ line.take e.mark.column, c.utf8Size = 1) → e.mark.column ≤ line.length)
      ∧ (content ≠ "" →
        Operations.check Dialect.json.name content = .problems [.error e.mark.line e.mark.column e.reason]) := by
  obtain ⟨f, read, same⟩ := errorOfMapError failed
  obtain rfl : Dialect.jsonError f = e := DocumentError.malformed.inj same
  obtain ⟨line, start, counts⟩ := (Json.failureWithin read).countsBytes
  refine ⟨line, start, counts, counts.ofOffset, counts.columnOfAscii, fun filled => ?_⟩
  rw [checkEq filled, failed]
  rfl

theorem parseOfFailure {content : String} {f : Json.Failure} (read : Json.read content.toList = .error f) :
    Dialect.json.parse content
      = .error (.malformed ⟨f.fault.message, .ofOneBased (f.place.line + 1) f.place.column⟩) := by
  rw [Dialect.parse, read, ← f.reason]
  rfl

theorem accentsBeforeTheEnd : Dialect.json.parse "\"éééé"
    = .error (.malformed ⟨"EOF while parsing a string", ⟨0, 8⟩⟩)
    ∧ (lines "\"éééé".toList)[0]? = some "\"éééé".toList ∧ ¬ 8 ≤ "\"éééé".toList.length := by
  have read : Json.read "\"éééé".toList = .error ⟨.endInString, ⟨0, 9⟩⟩ := errorOfSome (by decide +kernel)
  exact ⟨parseOfFailure read, by decide, by decide⟩

theorem missingCommaOnItsLine :
    ∃ line start, CountsBytes "[null\n null]".toList ⟨1, 1⟩ line start ∧ 1 ≤ line.length := by
  have failed : Dialect.json.parse "[null\n null]" = .error (.malformed ⟨"expected `,` or `]`", ⟨1, 1⟩⟩) := by
    have read : Json.read "[null\n null]".toList = .error ⟨.missingListComma, ⟨1, 2⟩⟩ :=
      errorOfSome (by decide +kernel)
    exact parseOfFailure read
  obtain ⟨line, start, counts, -, column, -⟩ := jsonProblemsOnTheirLines failed
  have second : (lines "[null\n null]".toList)[1]? = some " null]".toList := by decide
  obtain rfl := Option.some.inj (second.symm.trans counts.row)
  exact ⟨_, start, counts, column (List.forall_mem_singleton.mpr (by decide))⟩

end ConstraintDesk
