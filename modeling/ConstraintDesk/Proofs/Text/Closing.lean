import ConstraintDesk.Proofs.Text.Words

/-! Closing a text up, piece by piece: what is left behind a character that is not blank, and the pieces
that stay as they are. -/
namespace ConstraintDesk.Text

def closeBehind : List Char → List Char
  | [] => []
  | c :: r => if isBlank c then if oneLine r = [] then [] else ' ' :: oneLine r else oneLine (c :: r)

theorem closeBehindBlank {c : Char} (blank : isBlank c = true) (r : List Char) :
    closeBehind (c :: r) = if oneLine r = [] then [] else ' ' :: oneLine r := if_pos blank

theorem oneLineBehind {c : Char} (dark : isBlank c = false) (r : List Char) :
    oneLine (c :: r) = c :: closeBehind r := by
  cases r with
  | nil => exact oneLineSingle dark
  | cons d r =>
    cases blank : isBlank d with
    | true =>
      rw [oneLineApart dark blank, closeBehindBlank blank]
      split <;> rfl
    | false => rw [oneLineJoined dark blank, closeBehind, blank, if_neg (by simp)]

theorem closeBehindHead {c : Char} (dark : isBlank c = false) (r : List Char) :
    closeBehind (c :: r) = oneLine (c :: r) := by rw [closeBehind, dark, if_neg (by simp)]

theorem closeBehindDark {c : Char} (dark : isBlank c = false) (r : List Char) :
    closeBehind (c :: r) = c :: closeBehind r := by rw [closeBehindHead dark, oneLineBehind dark]

theorem oneLineOfBlanks {front : List Char} (blank : ∀ c ∈ front, isBlank c = true) (r : List Char) :
    oneLine (front ++ r) = oneLine r := by
  induction front with
  | nil => rfl
  | cons c front ih =>
    rw [List.cons_append, oneLineOfBlank (blank c List.mem_cons_self), ih fun d inside => blank d (by simp [inside])]

theorem closeParts (r : List Char) : ∃ word tail left, r = word ++ tail ∧ closeBehind r = word ++ left
    ∧ (∀ c ∈ word, isBlank c = false) ∧ (∀ c, tail.head? = some c → isBlank c = true)
    ∧ ∀ c, left.head? = some c → c = ' ' := by
  induction r with
  | nil => exact ⟨[], [], [], rfl, rfl, by simp, by simp, by simp⟩
  | cons c r ih =>
    cases blank : isBlank c with
    | true =>
      refine ⟨[], c :: r, closeBehind (c :: r), rfl, rfl, by simp, by simp [blank], fun d head => ?_⟩
      rw [closeBehindBlank blank] at head
      split at head
      · cases head
      · exact (Option.some.inj head).symm
    | false =>
      obtain ⟨word, tail, left, rfl, closed, dark, next, space⟩ := ih
      refine ⟨c :: word, tail, left, rfl, ?_, List.forall_mem_cons.mpr ⟨blank, dark⟩, next, space⟩
      exact (closeBehindDark blank _).trans (congrArg (c :: ·) closed)

theorem headKept {f : Char} {w r : List Char} (kept : f :: w <+: oneLine r) : isBlank f = false := by
  obtain ⟨tail, begins⟩ := kept
  have front : (oneLine r).head? = some f := by rw [← begins]; rfl
  exact oneLineHead front

theorem closeKept {w rest : List Char} (kept : w <+: closeBehind (w ++ rest)) :
    ∃ left, closeBehind (w ++ rest) = w ++ left ∧ (left = closeBehind rest ∨ left = oneLine rest) := by
  induction w with
  | nil => exact ⟨_, rfl, .inl rfl⟩
  | cons d w ih =>
    cases blank : isBlank d with
    | false =>
      rw [List.cons_append, closeBehindDark blank] at kept ⊢
      obtain ⟨left, same, which⟩ := ih (List.cons_prefix_cons.mp kept).2
      exact ⟨left, by rw [same, List.cons_append], which⟩
    | true =>
      rw [List.cons_append, closeBehindBlank blank] at kept ⊢
      split at kept
      · exact absurd kept (by simp)
      next more =>
      obtain ⟨rfl, inner⟩ := List.cons_prefix_cons.mp kept
      rw [if_neg more]
      cases w with
      | nil => exact ⟨_, rfl, .inr rfl⟩
      | cons f w =>
        have same : closeBehind (f :: w ++ rest) = oneLine (f :: w ++ rest) := closeBehindHead (headKept inner) _
        obtain ⟨left, parts, which⟩ := ih (same ▸ inner)
        exact ⟨left, by rw [← same, parts]; rfl, which⟩

def IsDark (c : Option Char) : Prop := ∃ d, c = some d ∧ isBlank d = false

/-- Every blank of a piece is a space between two characters that are not blank. -/
def Spaced (before piece behind : List Char) : Prop := ∀ front c back, piece = front ++ c :: back → isBlank c = true →
  c = ' ' ∧ IsDark (before ++ front).getLast? ∧ IsDark (back ++ behind).head?

theorem spacedNil (before behind : List Char) : Spaced before [] behind := fun _ _ _ split _ => by simp at split

theorem spacedCons {before piece behind : List Char} {c : Char} : Spaced before (c :: piece) behind
    ↔ (isBlank c = true → c = ' ' ∧ IsDark before.getLast? ∧ IsDark (piece ++ behind).head?)
      ∧ Spaced (before ++ [c]) piece behind := by
  constructor
  · intro spaced
    refine ⟨fun blank => ?_, fun front d back split blank => ?_⟩
    · simpa using spaced [] c piece rfl blank
    · simpa using spaced (c :: front) d back (by rw [split]; rfl) blank
  · rintro ⟨first, later⟩ front d back split blank
    cases front with
    | nil =>
      obtain ⟨rfl, rfl⟩ := List.cons.inj split
      simpa using first blank
    | cons e front =>
      obtain ⟨rfl, rest⟩ := List.cons.inj split
      simpa using later front d back rest blank

def Apart (piece behind : List Char) : Prop :=
  ∀ c, behind.head? = some c → isBlank c = true → ∀ d, piece.getLast? = some d → isBlank d = false

theorem Apart.tail {d : Char} {w rest : List Char} (apart : Apart (d :: w) rest) : Apart w rest := by
  intro c head blank e last
  refine apart c head blank e ?_
  rw [List.getLast?_cons, last]
  rfl

theorem blankKept {d : Char} (blank : isBlank d = true) (w r : List Char) :
    d :: w <+: closeBehind (d :: r) ↔ oneLine r ≠ [] ∧ d = ' ' ∧ w <+: oneLine r := by
  rw [closeBehindBlank blank]
  by_cases empty : oneLine r = []
  · simp [empty]
  · rw [if_neg empty, List.cons_prefix_cons]
    simp [empty]

theorem keptIff {before w rest : List Char} (ahead : IsDark before.getLast? ∨ IsDark w.head?) (apart : Apart w rest) :
    w <+: closeBehind (w ++ rest) ↔ Spaced before w rest := by
  induction w generalizing before with
  | nil => exact iff_of_true List.nil_prefix (spacedNil before rest)
  | cons d w ih =>
    have last : (before ++ [d]).getLast? = some d := List.getLast?_concat
    rw [List.cons_append, spacedCons]
    cases blank : isBlank d with
    | false =>
      rw [closeBehindDark blank, List.cons_prefix_cons, and_iff_right rfl, ih (.inl ⟨d, last, blank⟩) apart.tail]
      simp
    | true =>
      have front : IsDark before.getLast? := ahead.resolve_right fun ⟨e, head, dark⟩ => by
        cases head
        simp [blank] at dark
      rw [blankKept blank]
      simp only [forall_const, front, true_and]
      cases w with
      | nil =>
        have next : oneLine ([] ++ rest) ≠ [] ↔ IsDark ([] ++ rest).head? := by
          cases rest with
          | nil => exact iff_of_false (fun nonempty => nonempty rfl) fun ⟨_, head, _⟩ => by cases head
          | cons e r =>
            have dark : isBlank e = false := by
              by_contra gap
              have solid := apart e rfl (by simpa using gap) d rfl
              simp [blank] at solid
            exact iff_of_true (by rw [List.nil_append, oneLineBehind dark]; simp) ⟨e, rfl, dark⟩
        rw [next]
        simp [spacedNil, and_comm]
      | cons f w =>
        cases second : isBlank f with
        | true =>
          refine iff_of_false (fun ⟨_, _, kept⟩ => ?_) fun ⟨⟨_, e, head, dark⟩, _⟩ => ?_
          · have dark := headKept kept
            simp [second] at dark
          · cases head
            simp [second] at dark
        | false =>
          have same : oneLine (f :: w ++ rest) = closeBehind (f :: w ++ rest) := (closeBehindHead second _).symm
          have more : oneLine (f :: w ++ rest) ≠ [] := by
            rw [List.cons_append, oneLineBehind second]
            simp
          have inner := @ih (before ++ [d]) (.inr ⟨f, rfl, second⟩) apart.tail
          rw [and_iff_right more, same, inner]
          simp [IsDark, second]

end ConstraintDesk.Text
