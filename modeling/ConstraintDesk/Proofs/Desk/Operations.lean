import ConstraintDesk.Desk.Session
import ConstraintDesk.Proofs.Desk.Translation

/-! What an operation does with the reasoner, in any monad. It is over before the reasoner comes in, or it
submits one text and answers from the outcome. -/
namespace ConstraintDesk

theorem Dialect.nameOfOfName {name : String} {d : Dialect} (known : ofName name = .ok d) : name = d.name := by
  unfold ofName at known
  split at known
  · next found =>
    cases known
    have same : d.name = name := by simpa using List.find?_some found
    exact same.symm
  · cases known

namespace Operations

variable {m : Type → Type} [Monad m] (solve : String → m Outcome)

def checked (s : Submission) (text : String) (o : Outcome) : Envelope :=
  if o.isError then .problems (s.remapErrors text o) else .ok

variable {d : Dialect} {dialect content text : String}

inductive Way : String → String → Prop
  | nothing (dialect : String) : Way dialect ""
  | unknown {dialect content : String} {e : DocumentError} (filled : content ≠ "")
      (unknown : Dialect.ofName dialect = .error e) : Way dialect content
  | refused {d : Dialect} {content : String} {e : DocumentError} (filled : content ≠ "")
      (refused : (Submission.mk d content).intermediate = .error e) : Way d.name content
  | submitted {d : Dialect} {content text : String} (filled : content ≠ "")
      (made : (Submission.mk d content).intermediate = .ok text) : Way d.name content

theorem wayOf (dialect content : String) : Way dialect content := by
  by_cases empty : content = ""
  · subst empty
    exact .nothing dialect
  · cases known : Dialect.ofName dialect with
    | error e => exact .unknown empty known
    | ok d =>
      obtain rfl := Dialect.nameOfOfName known
      generalize intermediate : (Submission.mk d content).intermediate = made
      cases made with
      | error e => exact .refused empty intermediate
      | ok text => exact .submitted empty intermediate

theorem consistencyOfUnknown {e : DocumentError} (filled : content ≠ "") (unknown : Dialect.ofName dialect = .error e) :
    checkConsistency solve dialect content = pure (.error e.message) := by
  rw [checkConsistency, if_neg (by simpa using filled), unknown]

theorem consistencyOfRefused {e : DocumentError} (filled : content ≠ "")
    (refused : (Submission.mk d content).intermediate = .error e) :
    checkConsistency solve d.name content = pure (refusal "checking consistency" e) := by
  rw [checkConsistency, if_neg (by simpa using filled), Dialect.ofNameOfName]
  simp only [consistencyOf]
  rw [if_neg (by simpa using filled), refused]

theorem consistencyOfText [LawfulMonad m] (filled : content ≠ "")
    (made : (Submission.mk d content).intermediate = .ok text) :
    checkConsistency solve d.name content = checked ⟨d, content⟩ text <$> solve text := by
  rw [checkConsistency, if_neg (by simpa using filled), Dialect.ofNameOfName]
  simp only [consistencyOf]
  rw [if_neg (by simpa using filled), made, map_eq_pure_bind]
  refine bind_congr fun o => ?_
  unfold checked
  split <;> rfl

theorem executeRefused {e : DocumentError} (refused : (Submission.mk .yaml content).intermediate = .error e)
    (format : ExecuteFormat) : execute solve content format = pure (.envelope (refusal "executing" e)) := by
  unfold execute
  rw [refused]

theorem executeText [LawfulMonad m] (made : (Submission.mk .yaml content).intermediate = .ok text)
    (format : ExecuteFormat) : execute solve content format = solved content text format <$> solve text := by
  unfold execute
  rw [made, map_eq_pure_bind]

end Operations

end ConstraintDesk
