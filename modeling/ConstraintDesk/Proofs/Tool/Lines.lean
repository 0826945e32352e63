import ConstraintDesk.Proofs.Text.Columns
import ConstraintDesk.Tool.ByteMap

/-! What the tools take a text apart into is the text: its lines with their line feeds, the runs of equal lines, and
what is left when repeated bytes are closed up. -/
namespace ConstraintDesk.Machine.Bytes

open Text (ended endedOfSplit)

variable {b : Bytes}

def lastLine (own : Bytes) : List Bytes := if own = [] then [] else [own]

theorem endedLast (above : List Bytes) : ended above = [] ∨ (ended above).getLast? = some '\n' := by
  rcases List.eq_nil_or_concat above with rfl | ⟨front, row, rfl⟩
  · exact .inl rfl
  · rw [List.concat_eq_append, Text.endedConcat]
    exact .inr List.getLast?_concat

structure Lines (b : Bytes) where
  above : List Bytes
  own : Bytes
  whole : b = ended above ++ own
  rows : ∀ row ∈ above, '\n' ∉ row
  unbroken : '\n' ∉ own

theorem Lines.ends (parts : Lines b) : b = [] ∨ b.getLast? = some '\n' ↔ parts.own = [] := by
  obtain ⟨above, own, rfl, -, unbroken⟩ := parts
  dsimp only
  constructor
  · rintro (empty | last)
    · exact (List.append_eq_nil_iff.mp empty).2
    · by_contra filled
      rw [List.getLast?_append_of_ne_nil _ filled] at last
      exact unbroken (List.mem_of_getLast? last)
  · rintro rfl
    rw [List.append_nil]
    exact endedLast above

theorem linesOf (b : Bytes) : ∃ parts : Lines b, lines b = parts.above ++ lastLine parts.own
    ∧ fullLines b = parts.above.map (· ++ ['\n']) ++ lastLine parts.own := by
  obtain ⟨above, own, split, whole, rows, unbroken⟩ := endedOfSplit b
  have ends := Lines.ends ⟨above, own, whole, rows, unbroken⟩
  refine ⟨⟨above, own, whole, rows, unbroken⟩, ?_⟩
  by_cases empty : own = []
  · have parted : lines b = above := by simp [lines, split, empty]
    simp [fullLines, parted, lastLine, empty, ends.mpr empty]
  · have parted : lines b = above ++ [own] := by simp [lines, split, empty]
    simp [fullLines, parted, lastLine, empty, not_or.mp (mt ends.mp empty)]

theorem lastLineJoined (own : Bytes) : (lastLine own).flatten = own := by
  unfold lastLine
  split <;> simp [*]

theorem fullLinesJoined (b : Bytes) : (fullLines b).flatten = b := by
  obtain ⟨parts, -, full⟩ := linesOf b
  rw [full, List.flatten_append, lastLineJoined, ← List.flatMap_def, ← ended]
  exact parts.whole.symm

theorem fullLinesUnbroken (b : Bytes) : ∀ line ∈ fullLines b, line ≠ [] ∧ '\n' ∉ line.dropLast := by
  obtain ⟨parts, -, full⟩ := linesOf b
  rw [full]
  refine List.forall_mem_append.mpr ⟨List.forall_mem_map.mpr fun row member => ?_, fun line last => ?_⟩
  · simpa using parts.rows row member
  · unfold lastLine at last
    split at last
    · cases last
    · next filled =>
      obtain rfl := List.mem_singleton.mp last
      exact ⟨filled, fun inside => parts.unbroken (List.mem_of_mem_dropLast inside)⟩

end ConstraintDesk.Machine.Bytes

namespace ConstraintDesk.Tool

open Machine

theorem unlinesLines (b : Bytes) :
    unlines (Bytes.lines b) = if b = [] ∨ b.getLast? = some '\n' then b else b ++ ['\n'] := by
  obtain ⟨parts, split, -⟩ := Bytes.linesOf b
  rw [split, unlines, List.map_append, List.flatten_append, ← List.flatMap_def, ← Text.ended]
  split
  · next ends =>
    rw [parts.ends] at ends
    conv_rhs => rw [parts.whole, ends]
    simp [Bytes.lastLine, ends]
  · next unended =>
    rw [parts.ends] at unended
    conv_rhs => rw [parts.whole, List.append_assoc]
    simp [Bytes.lastLine, unended]

variable {line : Bytes} {rest : List Bytes}

theorem runsCons : (∃ n later, runs rest = (line, n) :: later ∧ runs (line :: rest) = (line, n + 1) :: later)
    ∨ (∀ run ∈ (runs rest).head?, line ≠ run.1) ∧ runs (line :: rest) = (line, 1) :: runs rest := by
  cases behind : runs rest with
  | nil =>
    refine .inr ⟨nofun, ?_⟩
    unfold runs at behind ⊢
    rw [List.foldr_cons, behind]
  | cons run later =>
    obtain ⟨other, n⟩ := run
    have step : runs (line :: rest)
        = if line = other then (other, n + 1) :: later else (line, 1) :: (other, n) :: later := by
      unfold runs at behind ⊢
      rw [List.foldr_cons, behind]
    rw [step]
    by_cases same : line = other
    · subst same
      exact .inl ⟨n, later, rfl, if_pos rfl⟩
    · exact .inr ⟨by simpa using same, if_neg same⟩

def expanded (run : Bytes × Nat) : List Bytes := List.replicate run.2 run.1

theorem runsExpanded (lines : List Bytes) : (runs lines).flatMap expanded = lines := by
  induction lines with
  | nil => rfl
  | cons line rest ih =>
    rcases @runsCons line rest with ⟨n, later, before, after⟩ | ⟨-, after⟩
    · rw [before, List.flatMap_cons] at ih
      rw [after, List.flatMap_cons, ← ih]
      rfl
    · rw [after, List.flatMap_cons, ih]
      rfl

theorem runsPositive (lines : List Bytes) : ∀ run ∈ runs lines, 0 < run.2 := by
  induction lines with
  | nil => exact List.forall_mem_nil _
  | cons line rest ih =>
    rcases @runsCons line rest with ⟨n, later, before, after⟩ | ⟨-, after⟩
    · rw [before] at ih
      rw [after]
      exact List.forall_mem_cons.mpr ⟨Nat.succ_pos n, (List.forall_mem_cons.mp ih).2⟩
    · rw [after]
      exact List.forall_mem_cons.mpr ⟨Nat.one_pos, ih⟩

theorem runsApart (lines : List Bytes) : (runs lines).IsChain fun one other => one.1 ≠ other.1 := by
  induction lines with
  | nil => exact .nil
  | cons line rest ih =>
    rcases @runsCons line rest with ⟨n, later, before, after⟩ | ⟨apart, after⟩
    · rw [before, List.isChain_cons] at ih
      rw [after, List.isChain_cons]
      exact ih
    · rw [after, List.isChain_cons]
      exact ⟨apart, ih⟩

variable {set b : Bytes} {c : Char}

def Repeats (set : Bytes) (x y : Char) : Prop := x = y ∧ x ∈ set

theorem squeezeConcat : squeeze set (b ++ [c])
    = if (squeeze set b).getLast? = some c ∧ c ∈ set then squeeze set b else squeeze set b ++ [c] := by
  unfold squeeze
  rw [List.foldl_append, List.getLast?_reverse]
  simp only [List.foldl_cons, List.foldl_nil, Bool.and_eq_true, decide_eq_true_eq, List.contains_iff_mem]
  split
  · rfl
  · rw [List.reverse_cons]

theorem squeezeApart (set b : Bytes) : (squeeze set b).IsChain fun x y => ¬ Repeats set x y := by
  induction b using List.reverseRecOn with
  | nil => exact .nil
  | append_singleton b c ih =>
    rw [squeezeConcat]
    split
    · exact ih
    · next apart =>
      refine List.isChain_append.mpr ⟨ih, .singleton c, ?_⟩
      rintro x last y ⟨⟩ ⟨rfl, member⟩
      exact apart ⟨last, member⟩

theorem squeezeSublist (set b : Bytes) : (squeeze set b).Sublist b := by
  induction b using List.reverseRecOn with
  | nil => exact .slnil
  | append_singleton b c ih =>
    rw [squeezeConcat]
    split
    · exact ih.trans (List.sublist_append_left b [c])
    · exact ih.append (List.Sublist.refl [c])

theorem squeezeSame : squeeze set b = b ↔ b.IsChain fun x y => ¬ Repeats set x y := by
  refine ⟨fun same => same ▸ squeezeApart set b, fun apart => ?_⟩
  induction b using List.reverseRecOn with
  | nil => rfl
  | append_singleton b c ih =>
    obtain ⟨front, -, seam⟩ := List.isChain_append.mp apart
    rw [squeezeConcat, ih front]
    exact if_neg fun ⟨last, member⟩ => seam c last c rfl ⟨rfl, member⟩

end ConstraintDesk.Tool
