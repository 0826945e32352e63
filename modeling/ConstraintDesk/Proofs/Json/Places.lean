import ConstraintDesk.Json.Reader
import ConstraintDesk.Proofs.Text.Columns

/-! Where the reader of JSON can stand and what it can blame: what it has left is the end of the text, and its
places lie on the lines of the text, with columns that count bytes. -/
namespace ConstraintDesk.Json

open Text

def Within (text : List Char) (m : Mark) : Prop :=
  ∃ done piece, IsRow text done piece m.line ∧ m.column ≤ byteLength piece

theorem Within.before {text : List Char} {m : Mark} (within : Within text m) {column : Nat} (before : column ≤ m.column) :
    Within text ⟨m.line, column⟩ := by
  obtain ⟨done, piece, row, inside⟩ := within
  exact ⟨done, piece, row, Nat.le_trans before inside⟩

namespace Cursor

def IsPlain (c : Char) : Prop := c ≠ '\n' ∧ c.utf8Size = 1

theorem plainOfRange {c low high : Char} (least : low ≤ c) (greatest : c ≤ high) (printed : ' ' ≤ low) (ascii : high ≤ '~') :
    IsPlain c := by
  refine ⟨fun broken => ?_, Char.utf8Size_eq_one_iff.mpr ?_⟩
  · exact absurd (broken ▸ le_trans printed least) (by decide)
  · exact UInt32.le_trans (UInt32.le_trans greatest ascii) (by decide)

theorem foldlUnbroken {cs : List Char} (unbroken : '\n' ∉ cs) (m : Mark) :
    cs.foldl byteStep m = ⟨m.line, m.column + byteLength cs⟩ := by
  induction cs generalizing m with
  | nil => rfl
  | cons c r ih =>
    rw [List.mem_cons, not_or] at unbroken
    rw [List.foldl_cons, ih unbroken.2, byteStep, if_neg (Ne.symm unbroken.1), byteLengthCons, Nat.add_assoc]

theorem foldlPlain {part : List Char} (plain : ∀ c ∈ part, IsPlain c) (m : Mark) :
    part.foldl byteStep m = ⟨m.line, m.column + part.length⟩ := by
  have bytes : part.map Char.utf8Size = List.replicate part.length 1 :=
    List.map_eq_replicate_iff.mpr fun c inside => (plain c inside).2
  rw [foldlUnbroken (fun broken => (plain _ broken).1 rfl), byteLength, bytes, List.sum_replicate_nat, Nat.mul_one]

def placeBehind (front : List Char) : Mark := front.foldl byteStep Mark.origin

def IsIn (text : List Char) (c : Cursor) : Prop := ∃ front, front ++ c.rest = text ∧ placeBehind front = c.place

theorem placeBehindConcat (front : List Char) (c : Char) : placeBehind (front ++ [c]) = byteStep (placeBehind front) c := by
  rw [placeBehind, List.foldl_append]
  rfl

theorem withinOfFront (front back : List Char) : Within (front ++ back) (placeBehind front) := by
  obtain ⟨above, own, split, rfl, rows, unbroken⟩ := endedOfSplit front
  obtain ⟨piece, row⟩ := IsRow.ofFront split rows back
  have stays (m : Mark) (c : Char) (other : c ≠ '\n') : (byteStep m c).line = m.line := by rw [byteStep, if_neg other]
  have start : placeBehind (ended above) = ⟨above.length, 0⟩ := Mark.foldlEnded stays (fun m => if_pos rfl) rows
  have place : placeBehind (ended above ++ own) = ⟨above.length, byteLength own⟩ := by
    rw [placeBehind, List.foldl_append, ← placeBehind, start, foldlUnbroken unbroken, Nat.zero_add]
  rw [place]
  exact ⟨ended above, own ++ piece, row, byteLengthOfPrefix (List.prefix_append ..)⟩

theorem IsIn.within {text : List Char} {c : Cursor} (inside : c.IsIn text) : Within text c.place := by
  obtain ⟨front, rfl, same⟩ := inside
  rw [← same]
  exact withinOfFront front c.rest

theorem withinOfPlaceAfter (n : Nat) (front back : List Char) :
    Within (front ++ back) (placeAfter n (placeBehind front) back) := by
  induction back generalizing n front with
  | nil => cases n <;> exact withinOfFront front []
  | cons c r ih =>
    cases n with
    | zero => exact withinOfFront front (c :: r)
    | succ n =>
      have further : front ++ c :: r = front ++ [c] ++ r := by simp
      rw [placeAfter, further]
      split
      · rw [← placeBehindConcat]
        exact ih _ _
      · next part =>
        have whole : c ≠ '\n' := fun broken => part (by simp [broken, Char.utf8Size])
        have behind : placeBehind (front ++ [c]) = ⟨(placeBehind front).line, (placeBehind front).column + c.utf8Size⟩ := by
          rw [placeBehindConcat, byteStep, if_neg whole]
        have within := withinOfFront (front ++ [c]) r
        rw [behind] at within
        exact within.before (Nat.add_le_add_left (by omega) _)

theorem IsIn.ahead {text : List Char} {c : Cursor} (inside : c.IsIn text) (n : Nat) :
    Within text (placeAfter n c.place c.rest) := by
  obtain ⟨front, rfl, same⟩ := inside
  rw [← same]
  exact withinOfPlaceAfter n front c.rest

theorem IsIn.over {text rest : List Char} {m : Mark} (part : List Char) (inside : IsIn text ⟨part ++ rest, m⟩) :
    IsIn text ⟨rest, part.foldl byteStep m⟩ := by
  obtain ⟨front, rfl, same⟩ := inside
  refine ⟨front ++ part, List.append_assoc .., ?_⟩
  rw [placeBehind, List.foldl_append, ← placeBehind, same]

theorem IsIn.overPlain {text rest : List Char} {m : Mark} (part : List Char) (inside : IsIn text ⟨part ++ rest, m⟩)
    (plain : ∀ c ∈ part, IsPlain c) : IsIn text ⟨rest, ⟨m.line, m.column + part.length⟩⟩ := by
  have behind := inside.over part
  rwa [foldlPlain plain] at behind

theorem IsIn.advance {text : List Char} {c : Cursor} (inside : c.IsIn text) : c.advance.IsIn text := by
  obtain ⟨rest, place⟩ := c
  cases rest with
  | nil => exact inside
  | cons x r => exact inside.over [x]

theorem IsIn.skip {text : List Char} {c : Cursor} (inside : c.IsIn text) (p : Char → Bool) : (c.skip p).IsIn text := by
  obtain ⟨rest, place⟩ := c
  refine IsIn.over (rest.takeWhile p) ?_
  rwa [List.takeWhile_append_dropWhile]

end Cursor

def Sound {α : Type} (text : List Char) : Except Failure (α × Cursor) → Prop
  | .ok (_, c) => c.IsIn text
  | .error f => Within text f.place

structure Keeps {α : Type} (r : Reader α) : Prop where
  sound : ∀ {text c}, c.IsIn text → Sound text (r c)

namespace Keeps

variable {α β : Type} {r : Reader α} {f : α → Reader β}

theorem pure (a : α) : Keeps (pure a : Reader α) := ⟨fun inside => inside⟩

theorem bind (h : Keeps r) (k : ∀ a, Keeps (f a)) : Keeps (r >>= f) := by
  refine ⟨fun {text c} inside => ?_⟩
  have step : (r >>= f) c = r c >>= fun (a, rest) => f a rest := rfl
  have first := h.sound inside
  rw [step]
  generalize r c = result at first
  cases result with
  | error f => exact first
  | ok read => exact (k read.1).sound first

theorem ite {p : Prop} [Decidable p] {r s : Reader α} (yes : Keeps r) (no : Keeps s) : Keeps (if p then r else s) := by
  split
  · exact yes
  · exact no

theorem failHere (f : Fault) : Keeps (Reader.failHere f : Reader α) := ⟨fun inside => inside.within⟩

theorem failNext (f : Fault) : Keeps (Reader.failNext f : Reader α) := ⟨fun inside => inside.ahead 1⟩

theorem peek : Keeps Reader.peek := ⟨fun inside => inside⟩

theorem advance : Keeps Reader.advance := ⟨fun inside => inside.advance⟩

theorem peekToken : Keeps Reader.peekToken := ⟨fun inside => inside.skip Reader.isSpace⟩

theorem digits : Keeps Reader.digits := ⟨fun inside => inside.skip Decimal.isDigit⟩

theorem word (w : List Char) : Keeps (Reader.word w) := by
  induction w with
  | nil => exact pure ()
  | cons x w ih =>
    refine peek.bind fun next => ?_
    cases next with
    | none => exact failHere _
    | some c => exact ite (advance.bind fun _ => ih) (failNext _)

theorem orHuge (n : Option Number) : Keeps (Reader.orHuge n) := by
  cases n with
  | none => exact failHere _
  | some n => exact pure n

theorem exponentUsed (n used : Nat) (cs : List Char) : (NumberText.exponent n used cs).2 ≤ used + cs.length := by
  fun_induction NumberText.exponent n used cs with
  | case1 => simp
  | case2 n used c r m fits ih => simp only [List.length_cons]; omega
  | case3 => simp

theorem behindDigits {k : Cursor → List Char → Reader α}
    (each : ∀ {text start run back}, start.rest = run ++ back → Cursor.IsIn text start →
      Sound text (k start run ⟨back, run.foldl Cursor.byteStep start.place⟩)) :
    Keeps (do let start ← get; let run ← Reader.digits; k start run) :=
  ⟨fun inside => each List.takeWhile_append_dropWhile.symm inside⟩

theorem exponentPart (negative : Bool) (n : Nat) (power : Int) : Keeps (Reader.exponentPart negative n power) := by
  refine peek.bind fun sign => ?_
  extract_lets behind
  have sound : Keeps (behind ()) := by
    refine peek.bind fun next => ?_
    cases next with
    | none => exact failHere _
    | some c =>
      refine ite (failNext _) (behindDigits fun {text start run back} split inside => ?_)
      obtain ⟨rest, place⟩ := start
      simp only at split
      subst split
      have taken := exponentUsed 0 0 run
      generalize NumberText.exponent 0 0 run = read at taken
      obtain ⟨value, used⟩ := read
      cases value with
      | some e => exact (orHuge _).sound (inside.over _)
      | none =>
        simp only
        split
        · -- The reader goes back to the digit with which the exponent is too large.
          have again : (run ++ back).drop used = run.drop used ++ back := List.drop_append_of_le_length (by simpa using taken)
          refine (failHere _).sound (Cursor.IsIn.over _ ?_)
          rwa [again, ← List.append_assoc, List.take_append_drop]
        · exact (orHuge _).sound (inside.over _)
  exact ite (advance.bind fun _ => sound) sound

theorem number (negative : Bool) : Keeps (Reader.number negative) := by
  refine peek.bind fun first => ?_
  cases first with
  | none => exact failHere _
  | some first =>
    refine ite (failNext _) ?_
    extract_lets behindWhole
    have sound (whole : List Char) : Keeps (behindWhole whole) := by
      refine peek.bind fun next => ?_
      extract_lets behindLead
      have sound : Keeps (behindLead ()) := by
        refine ite (advance.bind fun _ => digits.bind fun fraction => ?_) ?_
        · extract_lets behindFraction
          have sound : Keeps (behindFraction ()) := by
            refine peek.bind fun mark => ?_
            split
            · exact advance.bind fun _ => exponentPart ..
            · exact advance.bind fun _ => exponentPart ..
            · exact orHuge _
          refine ite (peek.bind fun _ => ?_) sound
          exact ite ((failHere _).bind fun _ => sound) ((failNext _).bind fun _ => sound)
        · exact ite (advance.bind fun _ => exponentPart ..) (orHuge _)
      exact ite ((failNext _).bind fun _ => sound) sound
    exact ite (advance.bind fun _ => (pure _).bind sound) (digits.bind sound)

theorem plainOfHex {c : Char} {d : Nat} (digit : Decimal.digitIn? 16 c = some d) : Cursor.IsPlain c := by
  simp only [Decimal.digitIn?, Decimal.isDigit, Bool.and_eq_true, decide_eq_true_eq] at digit
  split at digit
  · next range => exact Cursor.plainOfRange range.1 range.2 (by decide) (by decide)
  split at digit
  · next range => exact Cursor.plainOfRange range.1 range.2 (by decide) (by decide)
  split at digit
  · next range => exact Cursor.plainOfRange range.1 range.2 (by decide) (by decide)
  · simp at digit

theorem plainOfHexValue {a b c d : Char} {n : Nat} (value : Reader.hexValue? a b c d = some n) :
    ∀ x ∈ [a, b, c, d], Cursor.IsPlain x := by
  have digits {cs : List Char} {n m : Nat}
      (read : cs.foldlM (fun n c => (Decimal.digitIn? 16 c).map (16 * n + ·)) n = some m) : ∀ x ∈ cs, Cursor.IsPlain x := by
    induction cs generalizing n with
    | nil => simp
    | cons c r ih =>
      obtain ⟨k, first, later⟩ := Option.bind_eq_some_iff.mp (by simpa [List.foldlM_cons] using read)
      obtain ⟨e, digit, -⟩ := Option.map_eq_some_iff.mp first
      exact List.forall_mem_cons.mpr ⟨plainOfHex digit, ih later⟩
  exact digits value

theorem plainOfEscape {e c : Char} (escape : Reader.simpleEscape? e = some c) : Cursor.IsPlain e := by
  unfold Reader.simpleEscape? at escape
  split at escape
  case h_9 => cases escape
  all_goals exact ⟨by decide, by decide⟩

theorem hexFailureWithin {text cs : List Char} {m : Mark} (inside : Cursor.IsIn text ⟨cs, m⟩) :
    Within text (Reader.hexFailure m cs).place := by
  unfold Reader.hexFailure
  split
  · have whole : Cursor.IsIn text ⟨cs ++ [], m⟩ := by rwa [List.append_nil]
    exact (whole.over cs).within
  · exact inside.ahead 4

theorem behindEscape {text rest : List Char} {m : Mark} (part : List Char) (inside : Cursor.IsIn text ⟨'\\' :: (part ++ rest), m⟩)
    (plain : ∀ x ∈ part, Cursor.IsPlain x) : Cursor.IsIn text ⟨rest, ⟨m.line, m.column + (part.length + 1)⟩⟩ :=
  inside.overPlain ('\\' :: part) (List.forall_mem_cons.mpr ⟨⟨by decide, by decide⟩, plain⟩)

theorem behindBackslash {text rest : List Char} {m : Mark} (inside : Cursor.IsIn text ⟨'\\' :: rest, m⟩) :
    Cursor.IsIn text ⟨rest, ⟨m.line, m.column + 1⟩⟩ :=
  behindEscape [] inside (List.forall_mem_nil _)

theorem behindHexSign {text rest : List Char} {m : Mark} (inside : Cursor.IsIn text ⟨'\\' :: 'u' :: rest, m⟩) :
    Cursor.IsIn text ⟨rest, ⟨m.line, m.column + 2⟩⟩ :=
  behindEscape ['u'] inside (List.forall_mem_singleton.mpr ⟨by decide, by decide⟩)

theorem behindHexValue {text rest : List Char} {m : Mark} {a b c d : Char} {n : Nat}
    (inside : Cursor.IsIn text ⟨'\\' :: 'u' :: a :: b :: c :: d :: rest, m⟩) (value : Reader.hexValue? a b c d = some n) :
    Cursor.IsIn text ⟨rest, ⟨m.line, m.column + 6⟩⟩ :=
  behindEscape ['u', a, b, c, d] inside
    (List.forall_mem_cons.mpr ⟨⟨by decide, by decide⟩, plainOfHexValue value⟩)

theorem stringFromSound {text cs : List Char} {done : List Char} {high : Option Nat} {m : Mark}
    (inside : Cursor.IsIn text ⟨cs, m⟩) : Sound text (Reader.stringFrom done high m cs) := by
  fun_induction Reader.stringFrom done high m cs with
  | case1 => exact inside.within
  | case2 | case8 => exact hexFailureWithin (behindHexSign inside)
  | case3 | case7 => exact (behindHexValue inside ‹_›).within
  | case4 | case5 | case6 =>
    rename_i ih
    exact ih (behindHexValue inside ‹_›)
  | case9 => exact (behindBackslash inside).within
  | case10 | case11 => exact (behindBackslash inside).ahead 1
  | case12 =>
    rename_i escape _ _ ih
    exact ih (behindEscape [_] inside (List.forall_mem_singleton.mpr (plainOfEscape escape)))
  | case13 | case15 => exact inside.ahead 1
  | case14 => exact inside.advance
  | case16 =>
    rename_i ih
    exact ih inside.advance

theorem string : Keeps Reader.string := ⟨stringFromSound⟩

theorem nextItem (first : Bool) : Keeps (Reader.nextItem first) := by
  refine peekToken.bind fun next => ?_
  split
  · exact failHere _
  · exact pure _
  · refine ite (pure _) (ite (advance.bind fun _ => peekToken.bind fun next => ?_) (failNext _))
    split
    · exact failHere _
    · exact failNext _
    · exact pure _

theorem nextKey (first : Bool) : Keeps (Reader.nextKey first) := by
  refine peekToken.bind fun next => ?_
  split
  · exact failHere _
  · exact pure _
  · refine ite (ite (advance.bind fun _ => pure _) (failNext _)) ?_
    refine ite (advance.bind fun _ => peekToken.bind fun next => ?_) (failNext _)
    split
    · exact failHere _
    · exact advance.bind fun _ => pure _
    · exact failNext _
    · exact failNext _

theorem colon : Keeps Reader.colon := by
  refine peekToken.bind fun next => ?_
  split
  · exact failHere _
  · exact advance
  · exact failNext _

theorem nested (fuel : Nat) :
    (∀ depth, Keeps (Reader.value fuel depth))
      ∧ (∀ depth first done, Keeps (Reader.items fuel depth first done))
      ∧ ∀ depth first done, Keeps (Reader.fields fuel depth first done) := by
  induction fuel with
  | zero =>
    refine ⟨fun depth => ?_, fun depth first done => ?_, fun depth first done => ?_⟩
    · rw [Reader.value]; exact failHere _
    · rw [Reader.items]; exact failHere _
    · rw [Reader.fields]; exact failHere _
  | succ fuel ih =>
    obtain ⟨value, items, fields⟩ := ih
    refine ⟨fun depth => ?_, fun depth first done => ?_, fun depth first done => ?_⟩
    · rw [Reader.value]
      refine peekToken.bind fun next => ?_
      cases next with
      | none => exact failHere _
      | some c =>
        refine ite (advance.bind fun _ => (word _).bind fun _ => pure _) ?_
        refine ite (advance.bind fun _ => (word _).bind fun _ => pure _) ?_
        refine ite (advance.bind fun _ => (word _).bind fun _ => pure _) ?_
        refine ite (advance.bind fun _ => (number true).bind fun _ => pure _) ?_
        refine ite ((number false).bind fun _ => pure _) ?_
        refine ite (advance.bind fun _ => string.bind fun _ => pure _) ?_
        refine ite (ite (failNext _) (advance.bind fun _ => items ..)) ?_
        exact ite (ite (failNext _) (advance.bind fun _ => fields ..)) (failNext _)
    · rw [Reader.items]
      refine (nextItem first).bind fun more => ite ?_ ?_
      · exact (value depth).bind fun v => items ..
      · exact advance.bind fun _ => pure _
    · rw [Reader.fields]
      refine (nextKey first).bind fun more => ite ?_ ?_
      · exact string.bind fun key => colon.bind fun _ => (value depth).bind fun v => fields ..
      · exact advance.bind fun _ => pure _

theorem document (length : Nat) : Keeps (Reader.document length) := by
  refine ((nested _).1 _).bind fun v => peekToken.bind fun next => ?_
  split
  · exact pure _
  · exact failNext _

end Keeps

theorem failureWithin {text : List Char} {f : Failure} (failed : read text = .error f) : Within text f.place := by
  have start : Cursor.IsIn text ⟨text, Mark.origin⟩ := ⟨[], rfl, rfl⟩
  have sound := (Keeps.document text.length).sound start
  unfold read at failed
  generalize Reader.document text.length ⟨text, Mark.origin⟩ = result at failed sound
  cases result with
  | ok read => cases failed
  | error own =>
    cases failed
    exact sound

end ConstraintDesk.Json
