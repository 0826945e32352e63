import ConstraintDesk.Text.Basic
import Mathlib

/-! Lines that were written with a line feed behind each are the lines that are read. -/
namespace ConstraintDesk.Text

theorem splitOnCons (s c : Char) (r : List Char) :
    splitOn s (c :: r) = if c = s then [] :: splitOn s r else
      match splitOn s r with
      | [] => [[c]]
      | piece :: later => (c :: piece) :: later := rfl

theorem splitOnAppend {s : Char} {piece : List Char} (absent : s ∉ piece) (rest : List Char) :
    splitOn s (piece ++ s :: rest) = piece :: splitOn s rest := by
  induction piece with
  | nil => rw [List.nil_append, splitOnCons, if_pos rfl]
  | cons c r ih =>
    have other : c ≠ s := fun same => absent (same ▸ List.mem_cons_self)
    have tail : s ∉ r := fun member => absent (List.mem_cons_of_mem _ member)
    rw [List.cons_append, splitOnCons, if_neg other, ih tail]

theorem splitOnSome (s : Char) (cs : List Char) : splitOn s cs ≠ [] := by
  cases cs with
  | nil => simp [splitOn]
  | cons c r =>
    rw [splitOnCons]
    split
    · simp
    · split <;> simp

theorem splitOnHead (s : Char) (cs : List Char) : ∃ later, splitOn s cs = cs.takeWhile (· ≠ s) :: later := by
  induction cs with
  | nil => exact ⟨[], rfl⟩
  | cons c r ih =>
    obtain ⟨later, split⟩ := ih
    rw [splitOnCons, split]
    by_cases ends : c = s
    · rw [if_pos ends, List.takeWhile_cons_of_neg (by simpa using ends)]
      exact ⟨_, rfl⟩
    · rw [if_neg ends, List.takeWhile_cons_of_pos (by simpa using ends)]
      exact ⟨later, rfl⟩

theorem splitOnUnbroken {s : Char} {piece : List Char} (absent : s ∉ piece) : splitOn s piece = [piece] := by
  induction piece with
  | nil => rfl
  | cons c r ih =>
    rw [List.mem_cons, not_or] at absent
    rw [splitOnCons, if_neg (Ne.symm absent.1), ih absent.2]

theorem splitOnBetween (s : Char) (front back : List Char) :
    splitOn s (front ++ s :: back) = splitOn s front ++ splitOn s back := by
  induction front with
  | nil =>
    rw [List.nil_append, splitOnCons, if_pos rfl]
    rfl
  | cons c r ih =>
    rw [List.cons_append, splitOnCons, splitOnCons, ih]
    split
    · rfl
    · obtain ⟨piece, later, same⟩ := List.exists_cons_of_ne_nil (splitOnSome s r)
      rw [same]
      rfl

theorem splitOnConcat {s c : Char} (other : c ≠ s) (cs : List Char) :
    ∃ front last, splitOn s cs = front ++ [last] ∧ splitOn s (cs ++ [c]) = front ++ [last ++ [c]] := by
  induction cs with
  | nil => exact ⟨[], [], rfl, by rw [List.nil_append, splitOnCons, if_neg other]; rfl⟩
  | cons d r ih =>
    obtain ⟨front, last, before, after⟩ := ih
    rw [List.cons_append, splitOnCons, splitOnCons, before, after]
    split
    · exact ⟨[] :: front, last, rfl, rfl⟩
    · cases front with
      | nil => exact ⟨[], d :: last, rfl, rfl⟩
      | cons piece later => exact ⟨(d :: piece) :: later, last, rfl, rfl⟩

theorem linesPos (cs : List Char) : 0 < (lines cs).length := by
  simpa [lines, List.length_pos_iff] using splitOnSome '\n' cs

theorem splitOnParts (s : Char) (cs : List Char) : ∀ piece ∈ splitOn s cs, s ∉ piece := by
  induction cs with
  | nil => simp [splitOn]
  | cons c r ih =>
    rw [splitOnCons]
    split
    · simpa using ih
    · next other =>
      split
      · simpa using Ne.symm other
      · next piece later found =>
        rw [found] at ih
        simp only [List.mem_cons, forall_eq_or_imp] at ih ⊢
        exact ⟨by simp [Ne.symm other, ih.1], ih.2⟩

theorem linesUnbroken {cs line : List Char} (member : line ∈ lines cs) : '\n' ∉ line := by
  obtain ⟨piece, inside, rfl⟩ := List.mem_map.mp member
  have whole := splitOnParts '\n' cs piece inside
  unfold dropReturn
  split
  · exact fun broken => whole (List.mem_of_mem_dropLast broken)
  · exact whole

structure IsLine (cs : List Char) : Prop where
  unbroken : '\n' ∉ cs
  ended : cs.getLast? ≠ some '\r'

theorem dropReturnOfLine {cs : List Char} (line : IsLine cs) : dropReturn cs = cs :=
  if_neg line.ended

def ended (rows : List (List Char)) : List Char := rows.flatMap (· ++ ['\n'])

theorem endedConcat (rows : List (List Char)) (row : List Char) : ended (rows ++ [row]) = ended rows ++ row ++ ['\n'] := by
  simp [ended]

theorem linesOfWritten {written : List (List Char)} (each : ∀ cs ∈ written, IsLine cs) :
    lines (ended written) = written ++ [[]] := by
  induction written with
  | nil => rfl
  | cons cs rest ih =>
    have head := each cs List.mem_cons_self
    have later := ih fun l member => each l (List.mem_cons_of_mem _ member)
    have split := splitOnAppend head.unbroken (ended rest)
    unfold lines at later ⊢
    rw [ended, List.flatMap_cons, ← ended, List.append_assoc, List.singleton_append, split, List.map_cons, later,
      dropReturnOfLine head, List.cons_append]

def joined (rows : List (List Char)) : List Char := ['\n'].intercalate rows

theorem linesOfJoined {rows : List (List Char)} (nonempty : rows ≠ []) (unbroken : ∀ row ∈ rows, '\n' ∉ row) :
    lines (joined rows) = rows.map dropReturn := by
  induction rows with
  | nil => exact absurd rfl nonempty
  | cons row rest ih =>
    obtain ⟨own, others⟩ := List.forall_mem_cons.mp unbroken
    cases rest with
    | nil => rw [joined, List.intercalate_singleton, lines, splitOnUnbroken own]
    | cons next rest =>
      have later := ih (by simp) others
      rw [lines, joined] at later
      rw [joined, List.intercalate_cons_cons, List.append_assoc, List.singleton_append, lines, splitOnAppend own,
        List.map_cons, later]
      rfl

theorem linesCons {c : Char} (feed : c ≠ '\n') (back : c ≠ '\r') (r : List Char) :
    ∃ line later, lines r = line :: later ∧ lines (c :: r) = (c :: line) :: later := by
  obtain ⟨piece, later, split⟩ := List.exists_cons_of_ne_nil (splitOnSome '\n' r)
  have first : dropReturn (c :: piece) = c :: dropReturn piece := by
    cases piece with
    | nil => simp [dropReturn, back]
    | cons d piece =>
      unfold dropReturn
      rw [List.getLast?_cons_cons]
      split
      · rw [List.dropLast_cons_cons]
      · rfl
  refine ⟨dropReturn piece, later.map dropReturn, by rw [lines, split]; rfl, ?_⟩
  rw [lines, splitOnCons, if_neg feed, split]
  exact congrArg (· :: _) first

def withReturns (cs : List Char) : List Char := cs.flatMap fun c => if c = '\n' then ['\r', '\n'] else [c]

theorem linesWithReturns {cs : List Char} (absent : '\r' ∉ cs) : lines (withReturns cs) = lines cs := by
  induction cs with
  | nil => rfl
  | cons c r ih =>
    rw [List.mem_cons, not_or] at absent
    have same := ih absent.2
    rw [withReturns, List.flatMap_cons, ← withReturns]
    by_cases feed : c = '\n'
    · subst feed
      have ended : lines ('\r' :: '\n' :: withReturns r) = [] :: lines (withReturns r) := rfl
      rw [if_pos rfl, List.cons_append, List.singleton_append, ended, same]
      rfl
    · obtain ⟨line, later, short, long⟩ := linesCons feed (Ne.symm absent.1) r
      obtain ⟨other, others, shorter, longer⟩ := linesCons feed (Ne.symm absent.1) (withReturns r)
      rw [same, short] at shorter
      obtain ⟨rfl, rfl⟩ := List.cons.inj shorter
      rw [if_neg feed, List.singleton_append, longer, long]

end ConstraintDesk.Text
