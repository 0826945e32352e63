import ConstraintDesk.Decimal.Binary64
import ConstraintDesk.Text.Basic
/-! What a reasoner writes to its error stream. Messages are set apart by a blank line. A message may
name a line of the document as `<path>.dummy:<number>:`, counted from one, and may carry labels that
mean nothing to the user. -/
namespace ConstraintDesk.Diagnostics

attribute [local instance (high)] instPowNat

def dropBreak? : List Char → Option (List Char)
  | '\n' :: r => some r
  | '\r' :: '\n' :: r => some r
  | _ => none

def dropSeparator? (cs : List Char) : Option (List Char) := (dropBreak? cs).bind dropBreak?

theorem breakShortens {cs r : List Char} (h : dropBreak? cs = some r) : r.length < cs.length := by
  unfold dropBreak? at h
  split at h
  · cases h; simp
  · cases h; simp only [List.length_cons]; omega
  · cases h

theorem separatorShortens {cs r : List Char} (h : dropSeparator? cs = some r) :
    r.length < cs.length := by
  obtain ⟨s, hs, hr⟩ := Option.bind_eq_some_iff.mp h
  exact Nat.lt_trans (breakShortens hr) (breakShortens hs)

def blocksFrom (done : List Char) (cs : List Char) : List (List Char) :=
  match _h : dropSeparator? cs with
  | some r => done.reverse :: blocksFrom [] r
  | none =>
    match cs with
    | [] => [done.reverse]
    | c :: r => blocksFrom (c :: done) r
termination_by cs.length
decreasing_by
  · exact separatorShortens _h
  · simp

def blocks (stderr : List Char) : List (List Char) := blocksFrom [] stderr

def referenceAt? (cs : List Char) : Option (List Char) :=
  (Text.dropPart? ".dummy:".toList cs).bind fun r =>
    let digits := r.takeWhile Decimal.isDigit
    if !digits.isEmpty && (r.dropWhile Decimal.isDigit).head? = some ':' then some digits else none

def lastReference? : List Char → Option (List Char)
  | [] => none
  | c :: r => (lastReference? r).or (referenceAt? (c :: r))

/-- The line, counted from zero, that a message names: the last one on the first of its lines that
names any. Zero and what 64 bits do not hold are no numbers of lines. -/
def lineReference? (message : List Char) : Option Nat :=
  ((Text.splitOn '\n' message).findSome? lastReference?).bind fun digits =>
    let n := Decimal.natOf digits
    if 1 ≤ n && n < 2 ^ (64 : Nat) then some (n - 1) else none

def isLocationChar (c : Char) : Bool := Decimal.isDigit c || c = '.' || c = '-'

def dropLocation? (cs : List Char) : Option (List Char) :=
  (Text.dropPart? ".dummy:".toList cs).bind fun r =>
    if r.head?.any Decimal.isDigit then
      let rest := r.dropWhile isLocationChar
      some (Text.trimStart (if rest.head? = some ':' then rest.tail else rest))
    else none

def dropLastLocation? : List Char → Option (List Char)
  | [] => none
  | c :: r =>
    if Text.isBlank c then none else (dropLastLocation? r).or (dropLocation? (c :: r))

def dropBareName? (cs : List Char) : Option (List Char) :=
  (Text.dropPart? "dummy:".toList cs).or (Text.dropPart? "Dummy:".toList cs)

def dropName? (cs : List Char) : Option (List Char) := (dropBareName? cs).map Text.trimStart

def dropLabel? (cs : List Char) : Option (List Char) := (dropLastLocation? cs).or (dropName? cs)

theorem lengthDropPart {part cs r : List Char} (h : Text.dropPart? part cs = some r) :
    part.length + r.length = cs.length := by
  rw [Text.dropPartSome h, List.length_append]

theorem lengthDropWhile {p : Char → Bool} (cs : List Char) :
    (cs.dropWhile p).length ≤ cs.length := (List.dropWhile_sublist p).length_le

theorem locationShortens {cs r : List Char} (h : dropLocation? cs = some r) :
    r.length < cs.length := by
  obtain ⟨s, hs, hr⟩ := Option.bind_eq_some_iff.mp h
  have hp := lengthDropPart hs
  split at hr
  · cases hr
    have h1 := lengthDropWhile (p := isLocationChar) s
    simp only [Text.trimStart]
    split
    · refine Nat.lt_of_le_of_lt (lengthDropWhile _) ?_
      simp at hp ⊢; omega
    · refine Nat.lt_of_le_of_lt (lengthDropWhile _) ?_
      simp at hp ⊢; omega
  · cases hr

theorem lastLocationShortens {cs r : List Char} (h : dropLastLocation? cs = some r) :
    r.length < cs.length := by
  induction cs generalizing r with
  | nil => cases h
  | cons c cs ih =>
    simp only [dropLastLocation?] at h
    split at h
    · cases h
    · rcases Option.or_eq_some_iff.mp h with h | ⟨_, h⟩
      · exact Nat.lt_succ_of_lt (ih h)
      · exact locationShortens h

theorem lengthDropBareName {cs r : List Char} (h : dropBareName? cs = some r) :
    6 + r.length = cs.length := by
  rcases Option.or_eq_some_iff.mp h with h | ⟨_, h⟩ <;> simpa using lengthDropPart h

theorem nameShortens {cs r : List Char} (h : dropBareName? cs = some r) :
    (Text.trimStart r).length < cs.length := by
  have named := lengthDropBareName h
  have trimmed : (Text.trimStart r).length ≤ r.length := lengthDropWhile _
  omega

/-- A text without its labels. A run of characters is looked through for locations once: `searched`
says that the run at hand has none. -/
def dropLabelsFrom (searched : Bool) (cs : List Char) : List Char :=
  match _h : if searched then none else dropLastLocation? cs with
  | some r => dropLabelsFrom false r
  | none =>
    match _n : dropBareName? cs with
    | some r => dropLabelsFrom (!r.head?.any Text.isBlank) (Text.trimStart r)
    | none =>
      match cs with
      | [] => []
      | c :: r => c :: dropLabelsFrom (!Text.isBlank c) r
termination_by cs.length
decreasing_by
  · split at _h
    · cases _h
    · exact lastLocationShortens _h
  · exact nameShortens _n
  · simp

def dropLabels (cs : List Char) : List Char := dropLabelsFrom false cs

def clean (message : List Char) : List Char := Text.trim (dropLabels message)

end ConstraintDesk.Diagnostics
