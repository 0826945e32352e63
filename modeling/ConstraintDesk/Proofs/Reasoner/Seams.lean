import ConstraintDesk.Proofs.Reasoner.Labels

/-! Labels in what is left of a message. Cleaning goes through a message once, and what is left of it is put
together: where the parts meet, the end of one and the start of another may read as a name again. -/
namespace ConstraintDesk

namespace Text

/-- Pieces that are put together have a text that is in none of them: it starts at the end of a piece, goes over
whole ones, and ends in the front of a later one. -/
inductive Spans (part : List Char) : List (List Char) → Prop
  | here {first last a b : List Char} {between after : List (List Char)} (nonempty : a ≠ []) (more : b ≠ [])
      (ends : a <:+ first) (starts : b <+: last) (whole : part = a ++ (between.flatten ++ b)) :
      Spans part (first :: (between ++ last :: after))
  | later {piece : List Char} {pieces : List (List Char)} (inside : Spans part pieces) : Spans part (piece :: pieces)

theorem prefixOfFlatten {part : List Char} (nonempty : part ≠ []) {pieces : List (List Char)}
    (ahead : part <+: pieces.flatten) :
    ∃ between last after b, pieces = between ++ last :: after ∧ b ≠ [] ∧ b <+: last ∧ part = between.flatten ++ b := by
  induction pieces generalizing part with
  | nil => exact absurd (List.prefix_nil.mp ahead) nonempty
  | cons piece pieces ih =>
    obtain ⟨rest, whole⟩ := ahead
    rw [List.flatten_cons] at whole
    rcases List.append_eq_append_iff.mp whole with ⟨more, ends, -⟩ | ⟨b, longer, behind⟩
    · exact ⟨[], piece, pieces, part, rfl, nonempty, ⟨more, ends.symm⟩, rfl⟩
    · by_cases empty : b = []
      · rw [empty, List.append_nil] at longer
        exact ⟨[], piece, pieces, part, rfl, nonempty, longer ▸ List.prefix_rfl, rfl⟩
      · obtain ⟨between, last, after, c, rfl, notEmpty, starts, rfl⟩ := ih empty ⟨rest, behind.symm⟩
        refine ⟨piece :: between, last, after, c, rfl, notEmpty, starts, ?_⟩
        rw [longer, List.flatten_cons, List.append_assoc]

theorem spansFlatten {part : List Char} {pieces : List (List Char)} (spans : Spans part pieces) :
    part <:+: pieces.flatten := by
  induction spans with
  | @here first last a b between after nonempty more ends starts whole =>
    obtain ⟨front, rfl⟩ := ends
    obtain ⟨back, rfl⟩ := starts
    exact ⟨front, back ++ after.flatten, by simp [whole]⟩
  | later inside ih => exact List.infix_append_of_infix_right ih

theorem infixFlatten {part : List Char} (nonempty : part ≠ []) {pieces : List (List Char)} :
    part <:+: pieces.flatten ↔ (∃ piece ∈ pieces, part <:+: piece) ∨ Spans part pieces := by
  constructor
  · intro inside
    induction pieces with
    | nil => exact absurd (List.eq_nil_of_infix_nil inside) nonempty
    | cons piece pieces ih =>
      rw [List.flatten_cons, List.infix_append_iff_ne_nil] at inside
      rcases inside with own | later | ⟨a, c, notEmpty, more, rfl, ends, starts⟩
      · exact .inl ⟨piece, List.mem_cons_self, own⟩
      · rcases ih later with ⟨other, member, own⟩ | spans
        · exact .inl ⟨other, List.mem_cons_of_mem _ member, own⟩
        · exact .inr (.later spans)
      · obtain ⟨between, last, after, b, rfl, rest, front, rfl⟩ := prefixOfFlatten more starts
        exact .inr (.here notEmpty rest ends front rfl)
  · rintro (⟨piece, member, own⟩ | spans)
    · exact own.trans (List.infix_of_mem_flatten member)
    · exact spansFlatten spans

theorem spansOpenEnd {part : List Char} {pieces : List (List Char)} (spans : Spans part pieces) :
    ∃ piece ∈ pieces.dropLast, ∃ c ∈ part, piece.getLast? = some c := by
  induction spans with
  | @here first last a b between after nonempty more ends starts whole =>
    obtain ⟨c, back⟩ : ∃ c, a.getLast? = .some c := ⟨_, List.getLast?_eq_some_getLast nonempty⟩
    obtain ⟨front, rfl⟩ := ends
    refine ⟨front ++ a, ?_, c, ?_, by rw [List.getLast?_append, back]; rfl⟩
    · rw [List.dropLast_cons_of_ne_nil (by simp)]
      exact List.mem_cons_self
    · rw [whole]
      exact List.mem_append_left _ (List.mem_of_getLast? back)
  | @later piece pieces inside ih =>
    obtain ⟨open?, member, found⟩ := ih
    have nonempty : pieces ≠ [] := fun empty => by simp [empty] at member
    exact ⟨open?, by rw [List.dropLast_cons_of_ne_nil nonempty]; exact List.mem_cons_of_mem _ member, found⟩

section Apart

variable {part margin : List Char} (nonempty : part ≠ []) (apart : part.Disjoint margin)

include nonempty apart

theorem notInfixApart : ¬ part <:+: margin := by
  obtain ⟨c, rest, rfl⟩ := List.exists_cons_of_ne_nil nonempty
  exact fun inside => apart List.mem_cons_self (inside.subset List.mem_cons_self)

theorem infixAhead (cs : List Char) : part <:+: margin ++ cs ↔ part <:+: cs := by
  refine ⟨fun inside => ?_, fun inside => List.infix_append_of_infix_right inside⟩
  rcases List.infix_append_iff_ne_nil.mp inside with own | later | ⟨a, b, notEmpty, -, rfl, ends, -⟩
  · exact absurd own (notInfixApart nonempty apart)
  · exact later
  · exact absurd ends.isInfix (notInfixApart notEmpty (List.disjoint_append_left.mp apart).1)

theorem infixBefore (cs : List Char) : part <:+: cs ++ margin ↔ part <:+: cs := by
  refine ⟨fun inside => ?_, fun inside => List.infix_append_of_infix_left inside⟩
  rcases List.infix_append_iff_ne_nil.mp inside with own | later | ⟨a, b, -, notEmpty, rfl, -, starts⟩
  · exact own
  · exact absurd later (notInfixApart nonempty apart)
  · exact absurd starts.isInfix (notInfixApart notEmpty (List.disjoint_append_left.mp apart).2)

end Apart

theorem infixTrim {part : List Char} (nonempty : part ≠ []) (dark : ∀ c ∈ part, isBlank c = false) (cs : List Char) :
    part <:+: trim cs ↔ part <:+: cs := by
  have apart {margin : List Char} (blank : ∀ c ∈ margin, isBlank c = true) : part.Disjoint margin := by
    intro c own other
    cases (dark c own).symm.trans (blank c other)
  obtain ⟨front, back, parts, ahead, behind⟩ := trimParts cs
  rw [parts, infixAhead nonempty (apart ahead), infixBefore nonempty (apart behind), ← parts]

theorem trimLength (cs : List Char) : (trim cs).length ≤ cs.length := by
  obtain ⟨front, back, parts, -, -⟩ := trimParts cs
  have length := congrArg List.length parts
  simp only [List.length_append] at length
  omega

end Text

namespace Diagnostics

open Text (isBlank Spans)

theorem darkName {name : List Char} (known : name ∈ names) : name ≠ [] ∧ ∀ c ∈ name, isBlank c = false := by
  have each : ∀ name ∈ names, name ≠ [] ∧ name.all (fun c => !isBlank c) = true := by decide
  obtain ⟨nonempty, dark⟩ := each name known
  exact ⟨nonempty, fun c inside => by simpa using List.all_eq_true.mp dark c inside⟩

theorem cleanUnlabelledIff (message : List Char) :
    Unlabelled (clean message) ↔ ∀ name ∈ names, ¬ Spans name (labels.cut message).kept := by
  rw [unlabelledIff]
  refine forall₂_congr fun name known => not_congr ?_
  obtain ⟨nonempty, dark⟩ := darkName known
  have apart : ¬ ∃ kept ∈ (labels.cut message).kept, name <:+: kept :=
    fun ⟨kept, member, inside⟩ => keptUnlabelled message kept member name (labelOfName known) inside
  rw [cleanCut, Text.infixTrim nonempty dark, Text.Cut.joined, Text.infixFlatten nonempty, or_iff_right apart]

theorem unlabelledOfFixed {text : List Char} (fixed : clean text = text) : Unlabelled text := by
  -- Whatever goes makes the text shorter.
  have length := Text.Cut.lengthText (labels.cut text)
  rw [Text.Choice.textOfCut] at length
  have shorter := Text.trimLength (labels.cut text).joined
  rw [← cleanCut, fixed] at shorter
  have nothing : (labels.cut text).removed.flatten = [] := List.eq_nil_of_length_eq_zero (by omega)
  have empty : (labels.cut text).removed = [] := by
    refine List.eq_nil_iff_forall_not_mem.mpr fun label member => labelsSolid ?_
    exact List.flatten_eq_nil_iff.mp nothing label member ▸ Text.Choice.removedFits labels text label member
  have whole := Text.Choice.textOfCut labels text
  have kept := keptUnlabelled text (labels.cut text).front List.mem_cons_self
  rw [Text.Cut.text, List.map_eq_nil_iff.mp empty, List.flatMap_nil, List.append_nil] at whole
  exact whole ▸ kept

theorem cleanAgainIff (message : List Char) :
    clean (clean message) = clean message ↔ Unlabelled (clean message) := by
  refine ⟨unlabelledOfFixed, fun free => ?_⟩
  rw [cleanUnlabelled free, clean, Text.trimTrim]

/-- A cleaned message has no blank margins. It is free of labels exactly if no name goes over the seams between the
parts that were kept, as it is if every label of the message stands at its start, behind white space or behind
another label; and exactly then it stays as it is when it is cleaned again. -/
theorem cleanedLabelsAreOnSeams (message : List Char) :
    (∀ c, (clean message).head? = some c → isBlank c = false) ∧
    (∀ c, (clean message).getLast? = some c → isBlank c = false) ∧
    (Unlabelled (clean message) ↔ ∀ name ∈ names, ¬ Spans name (labels.cut message).kept) ∧
    ((∀ kept ∈ (labels.cut message).kept.dropLast, kept.getLast?.all isBlank = true) →
      Unlabelled (clean message)) ∧
    (clean (clean message) = clean message ↔ Unlabelled (clean message)) := by
  refine ⟨fun c => Text.trimHead, fun c => Text.trimLast, cleanUnlabelledIff message, fun closed => ?_,
    cleanAgainIff message⟩
  refine (cleanUnlabelledIff message).mpr fun name known spans => ?_
  obtain ⟨kept, member, c, inside, back⟩ := Text.spansOpenEnd spans
  have blank := closed kept member
  rw [back, Option.all_some, (darkName known).2 c inside] at blank
  cases blank

theorem wordsBehindLabelsAreFree : Unlabelled (clean "dummy: a.dummy:3: bad Dummy: (dum\nmy)".toList) := by
  obtain ⟨-, -, -, free, -⟩ := cleanedLabelsAreOnSeams "dummy: a.dummy:3: bad Dummy: (dum\nmy)".toList
  exact free (by decide +kernel)

theorem nameAroundAName :
    clean "dumdummy:my: x".toList = "dummy: x".toList ∧ ¬ Unlabelled (clean "dumdummy:my: x".toList) ∧
      clean (clean "dumdummy:my: x".toList) = "x".toList := by
  decide +kernel

end Diagnostics
end ConstraintDesk
