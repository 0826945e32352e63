import ConstraintDesk.Proofs.Text.Lines
import ConstraintDesk.Text.Basic
import Mathlib

/-! Offsets between characters and the marks they have, where the lines of a text start, and columns that count the
bytes of their line. -/
namespace ConstraintDesk

namespace Text

@[simp] theorem byteLengthNil : byteLength [] = 0 := rfl

@[simp] theorem byteLengthCons (c : Char) (r : List Char) : byteLength (c :: r) = c.utf8Size + byteLength r := by
  simp [byteLength]

theorem takeBytesAppend (front back : List Char) : takeBytes (byteLength front) (front ++ back) = front := by
  induction front with
  | nil =>
    cases back with
    | nil => rfl
    | cons c r => simp [takeBytes, c.utf8Size_pos.ne']
  | cons c r ih => simp [takeBytes, ih]

def between (start finish : Nat) (cs : List Char) : List Char := (takeBytes finish cs).drop (takeBytes start cs).length

theorem betweenOf (front body back : List Char) :
    between (byteLength front) (byteLength front + byteLength body) (front ++ (body ++ back)) = body := by
  have whole : byteLength front + byteLength body = byteLength (front ++ body) := by simp [byteLength]
  rw [between, takeBytesAppend, whole, ← List.append_assoc, takeBytesAppend, List.drop_left]

def IsBoundary (cs : List Char) (offset : Nat) : Prop := ∃ front, front <+: cs ∧ byteLength front = offset

theorem trimEndPrefix (cs : List Char) : trimEnd cs <+: cs := by
  unfold trimEnd
  exact List.reverse_suffix.mp (by simpa using List.dropWhile_suffix (l := cs.reverse) isBlank)

end Text

namespace Mark

theorem advanceUnbroken {cs : List Char} (unbroken : '\n' ∉ cs) (m : Mark) :
    m.advance cs = ⟨m.line, m.column + cs.length⟩ := by
  induction cs generalizing m with
  | nil => rfl
  | cons c r ih =>
    rw [List.mem_cons, not_or] at unbroken
    have stays : m.step c = ⟨m.line, m.column + 1⟩ := if_neg (Ne.symm unbroken.1)
    rw [advance, List.foldl_cons, ← advance, stays, ih unbroken.2, List.length_cons]
    simp only [mk.injEq, true_and]
    omega

theorem ofPrefix {front cs : List Char} (ahead : front <+: cs) : ofOffset cs (Text.byteLength front) = behind front := by
  obtain ⟨back, rfl⟩ := ahead
  rw [ofOffset, Text.takeBytesAppend]

theorem onLine {line : List Char} (unbroken : '\n' ∉ line) {offset : Nat} (boundary : Text.IsBoundary line offset) :
    (ofOffset line offset).line = 0 ∧ (ofOffset line offset).column ≤ line.length := by
  obtain ⟨front, ahead, rfl⟩ := boundary
  have own : '\n' ∉ front := fun member => unbroken (ahead.subset member)
  rw [ofPrefix ahead, behind, advanceUnbroken own]
  exact ⟨rfl, by simpa [origin] using ahead.length_le⟩

end Mark

namespace Text

theorem splitOnLonger {s c : Char} (other : c ≠ s) {front own : List Char} {above : List (List Char)}
    (before : splitOn s front = above ++ [own]) : splitOn s (front ++ [c]) = above ++ [own ++ [c]] := by
  obtain ⟨above', own', same, longer⟩ := splitOnConcat other front
  obtain ⟨rfl, last⟩ := List.append_inj' (before.symm.trans same) rfl
  obtain rfl := List.singleton_injective last
  exact longer

theorem splitOnFirst {s : Char} {cs piece : List Char} {later : List (List Char)} (split : splitOn s cs = piece :: later) :
    piece <+: cs := by
  induction cs generalizing piece later with
  | nil =>
    obtain ⟨rfl, -⟩ := List.cons.inj split
    exact List.prefix_refl []
  | cons c r ih =>
    obtain ⟨first, others, same⟩ := List.exists_cons_of_ne_nil (splitOnSome s r)
    rw [splitOnCons, same] at split
    split at split <;> obtain ⟨rfl, -⟩ := List.cons.inj split
    · exact List.nil_prefix
    · exact List.cons_prefix_cons.mpr ⟨rfl, ih same⟩

theorem endedOfSplit (cs : List Char) : ∃ above own, splitOn '\n' cs = above ++ [own] ∧ cs = ended above ++ own
    ∧ (∀ row ∈ above, '\n' ∉ row) ∧ '\n' ∉ own := by
  induction cs using List.reverseRecOn with
  | nil => exact ⟨[], [], rfl, rfl, List.forall_mem_nil _, List.not_mem_nil⟩
  | append_singleton cs c ih =>
    obtain ⟨above, own, split, rfl, rows, unbroken⟩ := ih
    by_cases feed : c = '\n'
    · subst feed
      refine ⟨above ++ [own], [], ?_, by rw [endedConcat, List.append_nil], ?_, List.not_mem_nil⟩
      · rw [splitOnBetween, split]
        rfl
      · exact List.forall_mem_append.mpr ⟨rows, fun row last => List.mem_singleton.mp last ▸ unbroken⟩
    · refine ⟨above, own ++ [c], splitOnLonger feed split, List.append_assoc .., rows, ?_⟩
      simp [unbroken, Ne.symm feed]

theorem splitOnJoined {s : Char} {front own : List Char} {above : List (List Char)}
    (before : splitOn s front = above ++ [own]) (back : List Char) :
    ∃ piece later, splitOn s back = piece :: later ∧ splitOn s (front ++ back) = above ++ (own ++ piece) :: later := by
  induction back generalizing front above own with
  | nil => exact ⟨[], [], rfl, by simpa using before⟩
  | cons c r ih =>
    rw [List.append_cons, splitOnCons]
    by_cases separator : c = s
    · subst separator
      have broken : splitOn c (front ++ [c]) = (above ++ [own]) ++ [[]] := by
        rw [splitOnBetween, before]
        rfl
      obtain ⟨piece, later, behind, whole⟩ := ih broken
      exact ⟨[], piece :: later, by rw [if_pos rfl, behind], by simpa using whole⟩
    · obtain ⟨piece, later, behind, whole⟩ := ih (splitOnLonger separator before)
      exact ⟨c :: piece, later, by rw [if_neg separator, behind], by simpa using whole⟩

theorem dropReturnPrefix (cs : List Char) : dropReturn cs <+: cs := by
  unfold dropReturn
  split
  · exact List.dropLast_prefix cs
  · exact List.prefix_refl cs

theorem byteLengthDropReturn (cs : List Char) : byteLength cs ≤ byteLength (dropReturn cs) + 1 := by
  unfold dropReturn
  split
  · next ended =>
    obtain ⟨front, rfl⟩ := List.getLast?_eq_some_iff.mp ended
    simp [byteLength, Char.utf8Size]
  · exact Nat.le_succ _

theorem byteLengthOfPrefix {front cs : List Char} (ahead : front <+: cs) : byteLength front ≤ byteLength cs := by
  obtain ⟨back, rfl⟩ := ahead
  simp [byteLength]

theorem takeBytesBehind (front cs : List Char) (n : Nat) :
    takeBytes (byteLength front + n) (front ++ cs) = front ++ takeBytes n cs := by
  induction front with
  | nil => simp
  | cons c r ih =>
    have fits : c.utf8Size ≤ byteLength (c :: r) + n := by simp only [byteLengthCons]; omega
    have left : byteLength (c :: r) + n - c.utf8Size = byteLength r + n := by simp only [byteLengthCons]; omega
    rw [List.cons_append, takeBytes, if_pos fits, left, ih, List.cons_append]

theorem takeBytesBeyond {n : Nat} {cs : List Char} (beyond : byteLength cs ≤ n) : takeBytes n cs = cs := by
  obtain ⟨more, rfl⟩ := Nat.exists_eq_add_of_le beyond
  simpa [takeBytes] using takeBytesBehind cs [] more

theorem takeBytesZero (cs : List Char) : takeBytes 0 cs = [] := by
  cases cs with
  | nil => rfl
  | cons c r => exact if_neg (by have := c.utf8Size_pos; omega)

theorem takeBytesWithin {n : Nat} {cs : List Char} (inside : n ≤ byteLength cs) (back : List Char) :
    takeBytes n (cs ++ back) = takeBytes n cs := by
  induction cs generalizing n with
  | nil =>
    obtain rfl : n = 0 := by simpa using inside
    exact takeBytesZero back
  | cons c r ih =>
    rw [List.cons_append, takeBytes, takeBytes]
    split
    · rw [ih (by rw [byteLengthCons] at inside; omega)]
    · rfl

theorem takeBytesPrefix (n : Nat) (cs : List Char) : takeBytes n cs <+: cs := by
  fun_induction takeBytes n cs with
  | case1 => exact List.prefix_refl []
  | case2 n c r fits ih => exact List.cons_prefix_cons.mpr ⟨rfl, ih⟩
  | case3 => exact List.nil_prefix

theorem takeBytesLength (n : Nat) (cs : List Char) : (takeBytes n cs).length ≤ n := by
  fun_induction takeBytes n cs with
  | case1 => exact Nat.zero_le _
  | case2 n c r fits ih =>
    have := c.utf8Size_pos
    simp only [List.length_cons]
    omega
  | case3 => exact Nat.zero_le _

theorem takeBytesExact {n : Nat} {cs : List Char} (inside : n ≤ byteLength cs) :
    (takeBytes n cs).length = n ↔ ∀ c ∈ cs.take n, c.utf8Size = 1 := by
  induction cs generalizing n with
  | nil =>
    obtain rfl : n = 0 := by simpa using inside
    simp [takeBytes]
  | cons c r ih =>
    cases n with
    | zero => simp [takeBytesZero]
    | succ n =>
      have pos := c.utf8Size_pos
      rw [byteLengthCons] at inside
      rw [takeBytes, List.take_succ_cons, List.forall_mem_cons]
      by_cases single : c.utf8Size = 1
      · rw [single, if_pos (by omega), List.length_cons, Nat.add_sub_cancel, Nat.succ_inj]
        simpa using ih (n := n) (by omega)
      · have fewer := takeBytesLength (n + 1 - c.utf8Size) r
        refine iff_of_false ?_ (fun all => single all.1)
        split
        · rw [List.length_cons]
          omega
        · simp

end Text

theorem Mark.behindAppend (front cs : List Char) : behind (front ++ cs) = (behind front).advance cs :=
  List.foldl_append ..

open Text

section Counting

variable {step : Mark → Char → Mark} (stays : ∀ m c, c ≠ '\n' → (step m c).line = m.line)
include stays

theorem Mark.lineUnbroken {cs : List Char} (unbroken : '\n' ∉ cs) (m : Mark) : (cs.foldl step m).line = m.line := by
  induction cs generalizing m with
  | nil => rfl
  | cons c r ih =>
    rw [List.mem_cons, not_or] at unbroken
    rw [List.foldl_cons, ih unbroken.2, stays m c (Ne.symm unbroken.1)]

theorem Mark.foldlEnded (feed : ∀ m, step m '\n' = ⟨m.line + 1, 0⟩) {rows : List (List Char)}
    (unbroken : ∀ row ∈ rows, '\n' ∉ row) : (ended rows).foldl step origin = ⟨rows.length, 0⟩ := by
  induction rows using List.reverseRecOn with
  | nil => rfl
  | append_singleton rows row ih =>
    obtain ⟨above, own⟩ := List.forall_mem_append.mp unbroken
    rw [endedConcat, List.foldl_append, List.foldl_append, ih above, List.foldl_cons, feed,
      Mark.lineUnbroken stays (own row List.mem_cons_self), List.length_append]
    rfl

end Counting

theorem Mark.behindEnded {rows : List (List Char)} (unbroken : ∀ row ∈ rows, '\n' ∉ row) :
    behind (ended rows) = ⟨rows.length, 0⟩ := by
  have stays (m : Mark) (c : Char) (other : c ≠ '\n') : (m.step c).line = m.line := by rw [step, if_neg other]
  exact foldlEnded stays (fun m => if_pos rfl) unbroken

structure IsRow (text done piece : List Char) (row : Nat) : Prop where
  start : Mark.behind done = ⟨row, 0⟩
  parts : done ++ piece <+: text
  split : (splitOn '\n' text)[row]? = some piece

namespace IsRow

variable {text done piece : List Char} {row : Nat}

theorem unbroken (h : IsRow text done piece row) : '\n' ∉ piece :=
  splitOnParts '\n' text piece (List.mem_of_getElem? h.split)

theorem line (h : IsRow text done piece row) : (lines text)[row]? = some (dropReturn piece) := by
  rw [lines, List.getElem?_map, h.split, Option.map_some]

theorem ofFront {above : List (List Char)} {own : List Char} (split : splitOn '\n' (ended above ++ own) = above ++ [own])
    (unbroken : ∀ row ∈ above, '\n' ∉ row) (back : List Char) :
    ∃ piece, IsRow (ended above ++ own ++ back) (ended above) (own ++ piece) above.length := by
  obtain ⟨piece, later, first, whole⟩ := splitOnJoined split back
  refine ⟨piece, Mark.behindEnded unbroken, ?_, by rw [whole]; simp⟩
  rw [List.append_assoc]
  exact (List.prefix_append_right_inj _).mpr ((List.prefix_append_right_inj own).mpr (splitOnFirst first))

theorem ofOffset (h : IsRow text done piece row) {n : Nat} (inside : n ≤ byteLength piece) :
    Mark.ofOffset text (byteLength done + n) = ⟨row, (takeBytes n piece).length⟩ := by
  obtain ⟨back, rfl⟩ := h.parts
  have own : '\n' ∉ takeBytes n piece := fun broken => h.unbroken ((takeBytesPrefix n piece).subset broken)
  rw [Mark.ofOffset, List.append_assoc, takeBytesBehind, takeBytesWithin inside, Mark.behindAppend, h.start,
    Mark.advanceUnbroken own]
  simp

end IsRow
end ConstraintDesk
