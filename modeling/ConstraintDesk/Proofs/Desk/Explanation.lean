import ConstraintDesk.Proofs.Desk.Remapping
import ConstraintDesk.Proofs.Reasoner.Labels

/-! What a user is told of a failed run of which no message can be located: what is left of the error stream when it
is cleaned, unless the stream is not empty and nothing is left of it. -/
namespace ConstraintDesk

namespace Diagnostics

/-- Labels and white space, and nothing else. -/
def Hollow (message : List Char) : Prop := ∀ kept ∈ (labels.cut message).kept, ∀ c ∈ kept, Text.isBlank c = true

theorem cleanNothing {message : List Char} : clean message = [] ↔ Hollow message := by
  rw [cleanCut, Text.trimEqNil, Text.Cut.joined]
  constructor
  · exact fun all kept member c inside => all c (List.mem_flatten_of_mem member inside)
  · intro hollow c inside
    obtain ⟨kept, member, own⟩ := List.mem_flatten.mp inside
    exact hollow kept member c own

end Diagnostics

namespace Submission

open Diagnostics (Hollow clean blocks)

def explanation (stderr error : String) : String :=
  String.ofList (if clean stderr.toList = [] then clean error.toList else clean stderr.toList)

variable {s : Submission} {intermediate : String} {o : Outcome} {e : String}

theorem explanationIff {stderr error : String} :
    explanation stderr error ≠ "" ↔ clean stderr.toList ≠ [] ∨ clean error.toList ≠ [] := by
  have empty : explanation stderr error = ""
      ↔ (if clean stderr.toList = [] then clean error.toList else clean stderr.toList) = [] :=
    ⟨fun same => String.ofList_injective same, fun same => congrArg String.ofList same⟩
  rw [Ne, empty]
  by_cases nothing : clean stderr.toList = []
  · rw [if_pos nothing]
    exact (or_iff_right (not_not.mpr nothing)).symm
  · rw [if_neg nothing]
    exact iff_of_true nothing (.inl nothing)

theorem fallbackOfHollow (filled : o.stderr ≠ "") (hollow : Hollow o.stderr.toList) : fallbackText o = "" := by
  rw [fallbackText, if_pos (by simpa using filled), Diagnostics.cleanNothing.mpr hollow]

theorem fallbackOfFailure (failed : o.error = some e) (told : o.stderr = "" ∨ ¬ Hollow o.stderr.toList) :
    fallbackText o = explanation o.stderr e := by
  rcases told with empty | more
  · have nothing : clean "".toList = [] := by decide +kernel
    rw [fallbackText, empty, failed, explanation, if_pos nothing]
    rfl
  · rw [← Diagnostics.cleanNothing] at more
    have filled : o.stderr ≠ "" := by
      intro empty
      rw [empty] at more
      exact more (by decide +kernel)
    rw [fallbackText, if_pos (by simpa using filled), explanation, if_neg more]

theorem failuresExplained (failed : o.error = some e)
    (nowhere : ∀ b ∈ blocks o.stderr.toList, s.annotation? intermediate b = none)
    (worded : clean o.stderr.toList ≠ [] ∨ clean e.toList ≠ []) :
    explanation o.stderr e ≠ "" ∧
    (s.remapErrors intermediate o = [.error 0 0 (explanation o.stderr e)]
      ↔ o.stderr = "" ∨ ¬ Hollow o.stderr.toList) ∧
    (o.stderr ≠ "" → Hollow o.stderr.toList → s.remapErrors intermediate o = [.error 0 0 ""]) := by
  have explained := explanationIff.mpr worded
  have remaps := remapsNothing nowhere
  refine ⟨explained, ⟨fun same => ?_, fun told => by rw [remaps, fallbackOfFailure failed told]⟩,
    fun present hollow => by rw [remaps, fallbackOfHollow present hollow]⟩
  by_contra untold
  obtain ⟨present, hollow⟩ := not_or.mp untold
  rw [remaps, fallbackOfHollow present (not_not.mp hollow)] at same
  exact explained (congrArg Annotation.text (List.cons.inj same).1).symm

theorem namelessMessageIsExplained :
    remapErrors ⟨.dummy, "solve satisfy;"⟩ "solve satisfy;" (.failure "exit status: 1" "Dummy: \n\nmodel.mzn:3: gone\n")
      = [.error 0 0 "model.mzn:3: gone"] := by
  have told := @failuresExplained ⟨.dummy, "solve satisfy;"⟩ "solve satisfy;"
    (.failure "exit status: 1" "Dummy: \n\nmodel.mzn:3: gone\n") _ rfl (by decide +kernel) (.inl (by decide +kernel))
  have more : ¬ Hollow "Dummy: \n\nmodel.mzn:3: gone\n".toList := mt Diagnostics.cleanNothing.mpr (by decide +kernel)
  exact (told.2.1.mpr (.inr more)).trans (by decide +kernel)

theorem lineFeedHidesTheError :
    clean "reasoner exited with exit status: 1".toList ≠ [] ∧
      (∀ b ∈ blocks "\n".toList, annotation? ⟨.dummy, "solve satisfy;"⟩ "solve satisfy;" b = none) ∧
      remapErrors ⟨.dummy, "solve satisfy;"⟩ "solve satisfy;" (.failure "reasoner exited with exit status: 1" "\n")
        = [.error 0 0 ""] := by
  decide +kernel

end Submission
end ConstraintDesk
