import ConstraintDesk.Text.Basic
import Mathlib

/-! White space: what trimming leaves, and what closing a text up to one line leaves. -/
namespace ConstraintDesk.Text

def wordsFrom (cs : List Char) : List Char × List (List Char) :=
  cs.foldr (fun c (word, found) =>
    if isBlank c then ([], if word.isEmpty then found else word :: found) else (c :: word, found))
    ([], [])

theorem wordsFromBlank {c : Char} (blank : isBlank c = true) (r : List Char) :
    wordsFrom (c :: r) = ([], words r) := by
  simp only [wordsFrom, words, List.foldr_cons, blank, if_true]

theorem wordsFromDark {c : Char} (dark : isBlank c = false) (r : List Char) :
    wordsFrom (c :: r) = (c :: (wordsFrom r).1, (wordsFrom r).2) := by
  simp only [wordsFrom, List.foldr_cons, dark, Bool.false_eq_true, if_false]

theorem wordsEq (cs : List Char) :
    words cs = if (wordsFrom cs).1.isEmpty then (wordsFrom cs).2
      else (wordsFrom cs).1 :: (wordsFrom cs).2 := rfl

theorem wordsOfBlank {c : Char} (blank : isBlank c = true) (r : List Char) :
    words (c :: r) = words r := by
  rw [wordsEq, wordsFromBlank blank]
  rfl

theorem wordsOfDark {c : Char} (dark : isBlank c = false) (r : List Char) :
    words (c :: r) = (c :: (wordsFrom r).1) :: (wordsFrom r).2 := by
  rw [wordsEq, wordsFromDark dark]
  rfl

structure IsWordOf (cs word : List Char) : Prop where
  notEmpty : word ≠ []
  dark : ∀ c ∈ word, isBlank c = false
  inside : ∀ c ∈ word, c ∈ cs

theorem IsWordOf.cons {cs word : List Char} (h : IsWordOf cs word) (c : Char) :
    IsWordOf (c :: cs) word :=
  ⟨h.notEmpty, h.dark, fun x member => List.mem_cons_of_mem _ (h.inside x member)⟩

theorem wordsFromParts (cs : List Char) :
    (∀ c ∈ (wordsFrom cs).1, isBlank c = false ∧ c ∈ cs) ∧ ∀ w ∈ (wordsFrom cs).2, IsWordOf cs w := by
  induction cs with
  | nil => simp [wordsFrom]
  | cons c r ih =>
    cases blank : isBlank c with
    | true =>
      rw [wordsFromBlank blank]
      refine ⟨by simp, fun w member => ?_⟩
      rw [wordsEq] at member
      split at member
      · exact (ih.2 w member).cons c
      · next started =>
        rcases List.mem_cons.mp member with rfl | later
        · have whole : IsWordOf r (wordsFrom r).1 :=
            ⟨by simpa using started, fun x hx => (ih.1 x hx).1, fun x hx => (ih.1 x hx).2⟩
          exact whole.cons c
        · exact (ih.2 w later).cons c
    | false =>
      rw [wordsFromDark blank]
      refine ⟨fun x member => ?_, fun w member => (ih.2 w member).cons c⟩
      rcases List.mem_cons.mp member with rfl | later
      · exact ⟨blank, List.mem_cons_self⟩
      · exact ⟨(ih.1 x later).1, List.mem_cons_of_mem _ (ih.1 x later).2⟩

theorem wordsParts (cs : List Char) : ∀ w ∈ words cs, IsWordOf cs w := by
  intro w member
  obtain ⟨first, later⟩ := wordsFromParts cs
  rw [wordsEq] at member
  split at member
  · exact later w member
  · next started =>
    rcases List.mem_cons.mp member with rfl | tail
    · exact ⟨by simpa using started, fun x hx => (first x hx).1, fun x hx => (first x hx).2⟩
    · exact later w tail

theorem trimStartOfBlank {c : Char} (blank : isBlank c = true) (r : List Char) :
    trimStart (c :: r) = trimStart r := by
  simp [trimStart, blank]

theorem trimStartOfDark {c : Char} (dark : isBlank c = false) (r : List Char) :
    trimStart (c :: r) = c :: r := by
  simp [trimStart, dark]

theorem trimEndEqNil {cs : List Char} : trimEnd cs = [] ↔ ∀ c ∈ cs, isBlank c = true := by
  simp [trimEnd]

theorem trimEqNil {cs : List Char} : trim cs = [] ↔ ∀ c ∈ cs, isBlank c = true := by
  induction cs with
  | nil => simp [trim, trimStart, trimEnd]
  | cons c r ih =>
    unfold trim at ih ⊢
    cases blank : isBlank c with
    | true => rw [trimStartOfBlank blank, ih]; simp [blank]
    | false =>
      rw [trimStartOfDark blank, trimEndEqNil]

theorem wordsEqNil {cs : List Char} : words cs = [] ↔ ∀ c ∈ cs, isBlank c = true := by
  induction cs with
  | nil => simp [words]
  | cons c r ih =>
    cases blank : isBlank c with
    | true => rw [wordsOfBlank blank, ih]; simp [blank]
    | false => rw [wordsOfDark blank]; simp [blank]

theorem trimOfDarkEnds {cs : List Char} (front : ∀ c, cs.head? = some c → isBlank c = false)
    (back : ∀ c, cs.getLast? = some c → isBlank c = false) : trim cs = cs := by
  have start : trimStart cs = cs := by
    cases cs with
    | nil => rfl
    | cons c r => exact trimStartOfDark (front c rfl) r
  rw [trim, start, trimEnd, ← List.head?_reverse] at *
  cases reversed : cs.reverse with
  | nil => simpa using reversed.symm
  | cons c r =>
    have dark : isBlank c = false := back c (by rw [reversed]; rfl)
    rw [List.dropWhile_cons_of_neg (by simp [dark]), ← reversed, List.reverse_reverse]

theorem trimParts (cs : List Char) : ∃ front back, cs = front ++ (trim cs ++ back)
    ∧ (∀ c ∈ front, isBlank c = true) ∧ ∀ c ∈ back, isBlank c = true := by
  have back := List.takeWhile_append_dropWhile (p := isBlank) (l := (trimStart cs).reverse)
  have reversed := congrArg List.reverse back
  rw [List.reverse_append, List.reverse_reverse] at reversed
  refine ⟨cs.takeWhile isBlank, ((trimStart cs).reverse.takeWhile isBlank).reverse, ?_, ?_, ?_⟩
  · rw [trim, trimEnd, reversed, trimStart, List.takeWhile_append_dropWhile]
  · exact fun c member => List.mem_takeWhile_imp member
  · exact fun c member => List.mem_takeWhile_imp (List.mem_reverse.mp member)

variable {front back : List Char}

theorem trimStartAhead (blank : ∀ c ∈ front, isBlank c = true) (cs : List Char) :
    trimStart (front ++ cs) = trimStart cs := List.dropWhile_append_of_pos blank

theorem trimStartBehind (blank : ∀ c ∈ back, isBlank c = true) (cs : List Char) :
    trimStart (cs ++ back) = if trimStart cs = [] then [] else trimStart cs ++ back := by
  induction cs with
  | nil =>
    have empty : trimStart [] = [] := rfl
    rw [List.nil_append, if_pos empty]
    exact List.dropWhile_eq_nil_iff.mpr blank
  | cons c r ih =>
    cases first : isBlank c with
    | true => rw [List.cons_append, trimStartOfBlank first, trimStartOfBlank first, ih]
    | false => rw [List.cons_append, trimStartOfDark first, trimStartOfDark first, if_neg (by simp), List.cons_append]

theorem trimEndBehind (blank : ∀ c ∈ back, isBlank c = true) (cs : List Char) :
    trimEnd (cs ++ back) = trimEnd cs := by
  have reversed : ∀ c ∈ back.reverse, isBlank c = true := fun c member => blank c (List.mem_reverse.mp member)
  rw [trimEnd, trimEnd, List.reverse_append, List.dropWhile_append_of_pos reversed]

theorem trimMargins (ahead : ∀ c ∈ front, isBlank c = true) (behind : ∀ c ∈ back, isBlank c = true)
    (cs : List Char) : trim (front ++ (cs ++ back)) = trim cs := by
  rw [trim, trim, trimStartAhead ahead, trimStartBehind behind]
  split
  · next empty => rw [empty]
  · exact trimEndBehind behind _

theorem trimLast {cs : List Char} {c : Char} (back : (trim cs).getLast? = some c) : isBlank c = false := by
  rw [trim, trimEnd, List.getLast?_reverse] at back
  have stopped := List.head?_dropWhile_not isBlank (trimStart cs).reverse
  rw [back] at stopped
  simpa using stopped

theorem trimHead {cs : List Char} {c : Char} (front : (trim cs).head? = some c) : isBlank c = false := by
  have back := List.takeWhile_append_dropWhile (p := isBlank) (l := (trimStart cs).reverse)
  have reversed := congrArg List.reverse back
  rw [List.reverse_append, List.reverse_reverse] at reversed
  have first : (trimStart cs).head? = some c := by
    rw [← reversed, List.head?_append]
    rw [trim, trimEnd] at front
    rw [front]
    rfl
  have stopped := List.head?_dropWhile_not isBlank cs
  rw [trimStart] at first
  rw [first] at stopped
  simpa using stopped

theorem trimTrim (cs : List Char) : trim (trim cs) = trim cs :=
  trimOfDarkEnds (fun _ front => trimHead front) (fun _ back => trimLast back)

theorem charOfIntercalate {sep : List Char} {pieces : List (List Char)} {c : Char}
    (member : c ∈ sep.intercalate pieces) : c ∈ sep ∨ ∃ p ∈ pieces, c ∈ p := by
  induction pieces with
  | nil => simp at member
  | cons p rest ih =>
    cases rest with
    | nil => exact .inr ⟨p, by simp, by simpa using member⟩
    | cons q more =>
      rw [List.intercalate_cons_cons, List.mem_append, List.mem_append] at member
      rcases member with (front | gap) | later
      · exact .inr ⟨p, by simp, front⟩
      · exact .inl gap
      · rcases ih later with gap | ⟨w, hw, hc⟩
        · exact .inl gap
        · exact .inr ⟨w, List.mem_cons_of_mem _ hw, hc⟩

theorem headOfIntercalate (sep : List Char) {p : List Char} (rest : List (List Char)) (nonempty : p ≠ []) :
    (sep.intercalate (p :: rest)).head? = p.head? := by
  cases rest with
  | nil => rw [List.intercalate_singleton]
  | cons q more =>
    rw [List.intercalate_cons_cons, List.append_assoc, List.head?_append_of_ne_nil _ nonempty]

theorem lastOfIntercalate {sep : List Char} {pieces : List (List Char)} (solid : ∀ p ∈ pieces, p ≠ [])
    {c : Char} (last : (sep.intercalate pieces).getLast? = .some c) : ∃ p ∈ pieces, c ∈ p := by
  induction pieces with
  | nil => simp at last
  | cons p rest ih =>
    cases rest with
    | nil => exact ⟨p, by simp, List.mem_of_getLast? (by simpa using last)⟩
    | cons q more =>
      have later : sep.intercalate (q :: more) ≠ [] := by
        have front := headOfIntercalate sep more (solid q (by simp))
        intro empty
        rw [empty] at front
        exact solid q (by simp) (List.head?_eq_none_iff.mp front.symm)
      rw [List.intercalate_cons_cons, List.getLast?_append_of_ne_nil _ later] at last
      obtain ⟨w, hw, hc⟩ := ih (fun x hx => solid x (List.mem_cons_of_mem _ hx)) last
      exact ⟨w, List.mem_cons_of_mem _ hw, hc⟩

theorem charOfOneLine {cs : List Char} {c : Char} (member : c ∈ oneLine cs) :
    c = ' ' ∨ isBlank c = false ∧ c ∈ cs := by
  rcases charOfIntercalate member with gap | ⟨w, hw, hc⟩
  · exact .inl (List.mem_singleton.mp gap)
  · have word := wordsParts cs w hw
    exact .inr ⟨word.dark c hc, word.inside c hc⟩

theorem oneLineHead {cs : List Char} {c : Char} (front : (oneLine cs).head? = some c) :
    isBlank c = false := by
  unfold oneLine at front
  cases found : words cs with
  | nil => rw [found] at front; simp at front
  | cons w rest =>
    have word := wordsParts cs w (by simp [found])
    rw [found, headOfIntercalate [' '] rest word.notEmpty] at front
    exact word.dark c (List.mem_of_head? front)

theorem oneLineLast {cs : List Char} {c : Char} (back : (oneLine cs).getLast? = some c) :
    isBlank c = false := by
  obtain ⟨w, hw, hc⟩ := lastOfIntercalate (fun w hw => (wordsParts cs w hw).notEmpty) back
  exact (wordsParts cs w hw).dark c hc

theorem trimOneLine (cs : List Char) : trim (oneLine cs) = oneLine cs :=
  trimOfDarkEnds (fun _ front => oneLineHead front) (fun _ back => oneLineLast back)

theorem oneLineEqNil {cs : List Char} : oneLine cs = [] ↔ trim cs = [] := by
  rw [trimEqNil, ← wordsEqNil, oneLine]
  cases found : words cs with
  | nil => simp
  | cons w rest =>
    have word := wordsParts cs w (by simp [found])
    have front := headOfIntercalate [' '] rest word.notEmpty
    constructor
    · intro empty
      rw [empty] at front
      exact absurd (List.head?_eq_none_iff.mp front.symm) word.notEmpty
    · intro bare
      contradiction

theorem oneLineOfBlank {c : Char} (blank : isBlank c = true) (r : List Char) : oneLine (c :: r) = oneLine r := by
  rw [oneLine, wordsOfBlank blank, oneLine]

theorem oneLineOfDark {c : Char} (dark : isBlank c = false) (r : List Char) :
    oneLine (c :: r) = c :: [' '].intercalate ((wordsFrom r).1 :: (wordsFrom r).2) := by
  rw [oneLine, wordsOfDark dark]
  cases (wordsFrom r).2 <;> simp [List.intercalate_cons_cons]

theorem oneLineSingle {c : Char} (dark : isBlank c = false) : oneLine [c] = [c] := by
  rw [oneLineOfDark dark]
  simp [wordsFrom]

theorem oneLineJoined {c d : Char} (first : isBlank c = false) (second : isBlank d = false) (r : List Char) :
    oneLine (c :: d :: r) = c :: oneLine (d :: r) := by
  rw [oneLineOfDark first, wordsFromDark second, oneLine, wordsOfDark second]

theorem oneLineApart {c d : Char} (dark : isBlank c = false) (blank : isBlank d = true) (r : List Char) :
    oneLine (c :: d :: r) = if oneLine r = [] then [c] else c :: ' ' :: oneLine r := by
  rw [oneLineOfDark dark, wordsFromBlank blank]
  by_cases bare : oneLine r = []
  · have words : words r = [] := wordsEqNil.mpr (trimEqNil.mp (oneLineEqNil.mp bare))
    simp [bare, words]
  · obtain ⟨w, rest, found⟩ := List.exists_cons_of_ne_nil (l := words r) fun empty => bare (by simp [oneLine, empty])
    rw [if_neg bare, oneLine, found, List.intercalate_cons_cons]
    simp

theorem oneLineFirst {cs : List Char} (dark : ∀ c, cs.head? = some c → isBlank c = false) :
    (oneLine cs).head? = cs.head? := by
  cases cs with
  | nil => rfl
  | cons c r =>
    rw [oneLineOfDark (dark c rfl)]
    rfl

@[elab_as_elim]
theorem byWords {motive : List Char → Prop} (nil : motive [])
    (blank : ∀ c r, isBlank c = true → motive r → motive (c :: r))
    (single : ∀ c, isBlank c = false → motive [c])
    (joined : ∀ c d r, isBlank c = false → isBlank d = false → motive (d :: r) → motive (c :: d :: r))
    (apart : ∀ c d r, isBlank c = false → isBlank d = true → motive r → motive (c :: d :: r))
    (cs : List Char) : motive cs := by
  induction length : cs.length using Nat.strong_induction_on generalizing cs with
  | _ n ih =>
    have shorter {r : List Char} (less : r.length < cs.length) : motive r := ih r.length (length ▸ less) r rfl
    cases cs with
    | nil => exact nil
    | cons c r =>
      cases first : isBlank c with
      | true => exact blank c r first (shorter (by simp))
      | false =>
        cases r with
        | nil => exact single c first
        | cons d r =>
          cases second : isBlank d with
          | false => exact joined c d r first second (shorter (by simp))
          | true => exact apart c d r first second (shorter (by simp))

theorem oneLineOneLine (cs : List Char) : oneLine (oneLine cs) = oneLine cs := by
  induction cs using byWords with
  | nil => rfl
  | blank c r blank ih => rw [oneLineOfBlank blank, ih]
  | single c dark => rw [oneLineSingle dark, oneLineSingle dark]
  | joined c d r first second ih =>
    have begins := oneLineOfDark second r
    rw [oneLineJoined first second, begins, oneLineJoined first second, ← begins, ih]
  | apart c d r dark blank ih =>
    rw [oneLineApart dark blank]
    split
    · exact oneLineSingle dark
    · next nonempty => rw [oneLineApart dark (by decide), ih, if_neg nonempty]

end ConstraintDesk.Text
