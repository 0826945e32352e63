import ConstraintDesk.Proofs.Text.Columns

/-! Marks and offsets between characters are two ways to point at the same place. Of two offsets the smaller one has
the smaller mark, and a mark tells its offset: the bytes of the lines above, line feeds and carriage returns included,
and those of as many characters as the column counts. -/
namespace ConstraintDesk

namespace Text

def firstLines (n : Nat) (text : List Char) : List Char := ended ((splitOn '\n' text).take n)

end Text

open Text

namespace Mark

def key (m : Mark) : ℕ ×ₗ ℕ := toLex (m.line, m.column)

theorem keyInjective : Function.Injective key := by
  rintro ⟨line, column⟩ ⟨line', column'⟩ same
  obtain ⟨rfl, rfl⟩ := Prod.mk.inj (toLex.injective same)
  rfl

instance : LinearOrder Mark := LinearOrder.lift' key keyInjective

theorem ltIff {m n : Mark} : m < n ↔ m.line < n.line ∨ m.line = n.line ∧ m.column < n.column :=
  Prod.Lex.toLex_lt_toLex

theorem ltStep (m : Mark) (c : Char) : m < m.step c := by
  unfold step
  split
  · exact ltIff.mpr (.inl (Nat.lt_succ_self _))
  · exact ltIff.mpr (.inr ⟨rfl, Nat.lt_succ_self _⟩)

theorem leAdvance (m : Mark) (cs : List Char) : m ≤ m.advance cs := by
  induction cs generalizing m with
  | nil => exact le_rfl
  | cons c r ih => exact (ltStep m c).le.trans (ih (m.step c))

theorem ltAdvance (m : Mark) {cs : List Char} (nonempty : cs ≠ []) : m < m.advance cs := by
  obtain ⟨c, r, rfl⟩ := List.exists_cons_of_ne_nil nonempty
  exact (ltStep m c).trans_le (leAdvance (m.step c) r)

theorem ofOffsetStrictMono (text : List Char) : StrictMonoOn (ofOffset text) {offset | IsBoundary text offset} := by
  rintro _ ⟨front, ahead, rfl⟩ _ ⟨longer, further, rfl⟩ less
  rw [ofPrefix ahead, ofPrefix further]
  rcases List.prefix_or_prefix_of_prefix ahead further with ⟨more, rfl⟩ | shorter
  · rw [behindAppend]
    refine ltAdvance _ fun empty => ?_
    rw [empty, List.append_nil] at less
    exact Nat.lt_irrefl _ less
  · exact absurd less (Nat.not_lt.mpr (byteLengthOfPrefix shorter))

theorem behindLine {rows : List (List Char)} (above : ∀ row ∈ rows, '\n' ∉ row) {own : List Char}
    (unbroken : '\n' ∉ own) : behind (ended rows ++ own) = ⟨rows.length, own.length⟩ := by
  rw [behindAppend, behindEnded above, advanceUnbroken unbroken, Nat.zero_add]

/-- The mark is on a line of the text, inside of it or at its end, and the offset is behind the lines above and as
many characters as the column says. A carriage return in front of a line feed is a character of the line. -/
structure Names (text : List Char) (m : Mark) (offset : Nat) : Prop where
  row : m.line < (lines text).length
  place : ∃ rest, text = firstLines m.line text ++ rest ∧ m.column ≤ rest.length ∧ '\n' ∉ rest.take m.column
    ∧ offset = byteLength (firstLines m.line text) + byteLength (rest.take m.column)

theorem namesBehind (front back : List Char) : Names (front ++ back) (behind front) (byteLength front) := by
  obtain ⟨above, own, split, rfl, rows, unbroken⟩ := endedOfSplit front
  obtain ⟨piece, later, -, whole⟩ := splitOnJoined split back
  have first : firstLines above.length (ended above ++ own ++ back) = ended above := by
    rw [firstLines, whole, List.take_left]
  rw [behindLine rows unbroken]
  refine ⟨?_, own ++ back, ?_, ?_, ?_, ?_⟩
  · rw [lines, List.length_map, whole, List.length_append, List.length_cons]
    exact Nat.lt_add_of_pos_right (Nat.succ_pos _)
  · rw [first, List.append_assoc]
  · rw [List.length_append]
    exact Nat.le_add_right ..
  · rwa [List.take_left]
  · rw [first, List.take_left]
    simp [byteLength]

theorem Names.isBoundary {text : List Char} {m : Mark} {offset : Nat} (h : Names text m offset) :
    IsBoundary text offset ∧ ofOffset text offset = m := by
  obtain ⟨row, rest, split, inside, unbroken, rfl⟩ := h
  have ahead : firstLines m.line text ++ rest.take m.column <+: text :=
    ⟨rest.drop m.column, by rw [List.append_assoc, List.take_append_drop, ← split]⟩
  have bytes : byteLength (firstLines m.line text) + byteLength (rest.take m.column)
      = byteLength (firstLines m.line text ++ rest.take m.column) := by simp [byteLength]
  have above : ∀ piece ∈ (splitOn '\n' text).take m.line, '\n' ∉ piece :=
    fun piece member => splitOnParts '\n' text piece (List.mem_of_mem_take member)
  have count : ((splitOn '\n' text).take m.line).length = m.line := by
    rw [lines, List.length_map] at row
    exact List.length_take_of_le row.le
  rw [bytes]
  refine ⟨⟨_, ahead, rfl⟩, ?_⟩
  rw [ofPrefix ahead, firstLines, behindLine above unbroken, count, List.length_take_of_le inside]

theorem offsetsOneToOne (text : List Char) :
    StrictMonoOn (ofOffset text) {offset | IsBoundary text offset}
      ∧ (∀ offset m, IsBoundary text offset ∧ ofOffset text offset = m ↔ Names text m offset)
      ∧ ∀ offset, byteLength text ≤ offset → ofOffset text offset = ofOffset text (byteLength text) := by
  refine ⟨ofOffsetStrictMono text, fun offset m => ⟨?_, Names.isBoundary⟩, fun offset beyond => ?_⟩
  · rintro ⟨⟨front, ⟨back, rfl⟩, rfl⟩, rfl⟩
    rw [ofPrefix (List.prefix_append ..)]
    exact namesBehind front back
  · rw [ofOffset, ofOffset, takeBytesBeyond beyond, takeBytesBeyond le_rfl]

theorem accentBehindReturn : ofOffset "ab\r\ncdé\nx".toList 3 < ofOffset "ab\r\ncdé\nx".toList 8
    ∧ Names "ab\r\ncdé\nx".toList ⟨1, 3⟩ 8 ∧ ofOffset "ab\r\ncdé\nx".toList 99 = ⟨2, 1⟩ := by
  have first : IsBoundary "ab\r\ncdé\nx".toList 3 := ⟨"ab\r".toList, by decide, by decide⟩
  have second : IsBoundary "ab\r\ncdé\nx".toList 8 := ⟨"ab\r\ncdé".toList, by decide, by decide⟩
  obtain ⟨less, names, beyond⟩ := offsetsOneToOne "ab\r\ncdé\nx".toList
  exact ⟨less first second (by decide), (names 8 ⟨1, 3⟩).mp ⟨second, by decide⟩,
    (beyond 99 (by decide)).trans (by decide)⟩

end Mark
end ConstraintDesk
