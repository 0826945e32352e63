import ConstraintDesk.Text.Basic
import Mathlib

/-! Bytes read as text. What is read is cut from the bytes: the encodings of the characters, and between them
the longest stretches that could start an encoding and break off, or single bytes that could not, each of which
becomes one replacement character. -/
namespace ConstraintDesk.Utf8

inductive Encoding (n : Nat) : List UInt8 → Prop
  | one {a : UInt8} (size : n < 0x80) (lead : a.toNat = n) : Encoding n [a]
  | two {a b : UInt8} (more : 0x80 ≤ n) (size : n < 0x800) (lead : a.toNat = n / 64 + 0xC0)
      (second : b.toNat = n % 64 + 0x80) : Encoding n [a, b]
  | three {a b c : UInt8} (more : 0x800 ≤ n) (size : n < 0x10000) (lead : a.toNat = n / 4096 + 0xE0)
      (second : b.toNat = n / 64 % 64 + 0x80) (third : c.toNat = n % 64 + 0x80) : Encoding n [a, b, c]
  | four {a b c d : UInt8} (more : 0x10000 ≤ n) (lead : a.toNat = n / 262144 + 0xF0)
      (second : b.toNat = n / 4096 % 64 + 0x80) (third : c.toNat = n / 64 % 64 + 0x80)
      (fourth : d.toNat = n % 64 + 0x80) : Encoding n [a, b, c, d]

theorem charRange (c : Char) : c.toNat < 0xD800 ∨ 0xDFFF < c.toNat ∧ c.toNat < 0x110000 := c.valid

theorem byteOfNat {n m : Nat} (small : n < 256) (same : n = m) : (UInt8.ofNat n).toNat = m := by
  rw [UInt8.toNat_ofNat', Nat.mod_eq_of_lt small, same]

theorem encodingOf (c : Char) : Encoding c.toNat (String.utf8EncodeChar c) := by
  have range := charRange c
  have number : c.val.toNat = c.toNat := rfl
  rw [String.utf8EncodeChar]
  simp only [number]
  generalize c.toNat = n at range
  split
  · exact .one (by omega) (byteOfNat (by omega) rfl)
  split
  · exact .two (by omega) (by omega) (byteOfNat (by omega) (by omega)) (byteOfNat (by omega) rfl)
  split
  · exact .three (by omega) (by omega) (byteOfNat (by omega) (by omega)) (byteOfNat (by omega) rfl)
      (byteOfNat (by omega) rfl)
  · exact .four (by omega) (byteOfNat (by omega) (by omega)) (byteOfNat (by omega) rfl)
      (byteOfNat (by omega) rfl) (byteOfNat (by omega) rfl)

theorem Encoding.unique {n : Nat} {bytes other : List UInt8} (one : Encoding n bytes) (two : Encoding n other) :
    bytes = other := by
  cases one <;> cases two <;>
    first | omega | simp only [List.cons.injEq, and_true, ← UInt8.toNat_inj]; omega

theorem Encoding.number {n m : Nat} {bytes : List UInt8} (one : Encoding n bytes) (two : Encoding m bytes) : n = m := by
  cases one <;> cases two <;> omega

theorem Encoding.prefixFree {n m : Nat} {bytes rest : List UInt8} (one : Encoding n bytes)
    (two : Encoding m (bytes ++ rest)) : rest = [] := by
  cases one <;> cases two <;> first | rfl | omega

theorem Encoding.char {n : Nat} {bytes : List UInt8} (h : Encoding n bytes)
    (valid : n < 0xD800 ∨ 0xDFFF < n ∧ n < 0x110000) : String.utf8EncodeChar (Char.ofNat n) = bytes := by
  have number : (Char.ofNat n).toNat = n := by
    rw [Char.ofNat, dif_pos valid]
    rfl
  have encoded := encodingOf (Char.ofNat n)
  rw [number] at encoded
  exact encoded.unique h

def Starts (bytes : List UInt8) : Prop := ∃ c : Char, bytes <+: String.utf8EncodeChar c

theorem Starts.number {bytes : List UInt8} (h : Starts bytes) :
    ∃ n rest, Encoding n (bytes ++ rest) ∧ (n < 0xD800 ∨ 0xDFFF < n ∧ n < 0x110000) := by
  obtain ⟨c, rest, same⟩ := h
  exact ⟨c.toNat, rest, same ▸ encodingOf c, charRange c⟩

theorem Starts.front {bytes rest : List UInt8} (h : Starts (bytes ++ rest)) : Starts bytes := by
  obtain ⟨c, ahead⟩ := h
  exact ⟨c, (List.prefix_append bytes rest).trans ahead⟩

def IsTail (b : Nat) : Prop := 0x80 ≤ b ∧ b ≤ 0xBF

def Follows (a b : Nat) : Prop :=
  IsTail b ∧ (a = 0xE0 → 0xA0 ≤ b) ∧ (a = 0xED → b ≤ 0x9F) ∧ (a = 0xF0 → 0x90 ≤ b) ∧ (a = 0xF4 → b ≤ 0x8F)

theorem follower (a : Nat) : ∃ b : UInt8, Follows a b.toNat := by
  have byte (n : Nat) (small : n < 256) : (UInt8.ofNat n).toNat = n := byteOfNat small rfl
  by_cases three : a = 0xE0
  · exact ⟨.ofNat 0xA0, by rw [byte _ (by decide)]; unfold Follows IsTail; omega⟩
  by_cases four : a = 0xF0
  · exact ⟨.ofNat 0x90, by rw [byte _ (by decide)]; unfold Follows IsTail; omega⟩
  · exact ⟨.ofNat 0x80, by rw [byte _ (by decide)]; unfold Follows IsTail; omega⟩

def Pending.Admits (p : Pending) (b : UInt8) : Prop := p.least ≤ b ∧ b ≤ p.greatest

theorem admitsTail {bits owed : Nat} {b : UInt8} : Pending.Admits ⟨bits, owed, 0x80, 0xBF⟩ b ↔ IsTail b.toNat := by
  simp only [Pending.Admits, IsTail, UInt8.le_iff_toNat_le]
  rfl

inductive Awaits : List UInt8 → Pending → Prop
  | two {a l g : UInt8} (lead : 0xC2 ≤ a.toNat ∧ a.toNat ≤ 0xDF)
      (range : ∀ b : UInt8, l ≤ b ∧ b ≤ g ↔ Follows a.toNat b.toNat) : Awaits [a] ⟨a.toNat - 0xC0, 1, l, g⟩
  | three {a l g : UInt8} (lead : 0xE0 ≤ a.toNat ∧ a.toNat ≤ 0xEF)
      (range : ∀ b : UInt8, l ≤ b ∧ b ≤ g ↔ Follows a.toNat b.toNat) : Awaits [a] ⟨a.toNat - 0xE0, 2, l, g⟩
  | four {a l g : UInt8} (lead : 0xF0 ≤ a.toNat ∧ a.toNat ≤ 0xF4)
      (range : ∀ b : UInt8, l ≤ b ∧ b ≤ g ↔ Follows a.toNat b.toNat) : Awaits [a] ⟨a.toNat - 0xF0, 3, l, g⟩
  | secondOfThree {a b : UInt8} (lead : 0xE0 ≤ a.toNat ∧ a.toNat ≤ 0xEF) (second : Follows a.toNat b.toNat) :
      Awaits [a, b] ⟨(a.toNat - 0xE0) * 64 + (b.toNat - 0x80), 1, 0x80, 0xBF⟩
  | secondOfFour {a b : UInt8} (lead : 0xF0 ≤ a.toNat ∧ a.toNat ≤ 0xF4) (second : Follows a.toNat b.toNat) :
      Awaits [a, b] ⟨(a.toNat - 0xF0) * 64 + (b.toNat - 0x80), 2, 0x80, 0xBF⟩
  | thirdOfFour {a b c : UInt8} (lead : 0xF0 ≤ a.toNat ∧ a.toNat ≤ 0xF4) (second : Follows a.toNat b.toNat)
      (third : IsTail c.toNat) : Awaits [a, b, c]
        ⟨((a.toNat - 0xF0) * 64 + (b.toNat - 0x80)) * 64 + (c.toNat - 0x80), 1, 0x80, 0xBF⟩

namespace Awaits

variable {bytes : List UInt8} {p : Pending} {b : UInt8}

theorem next (h : Awaits bytes p) (more : 1 < p.owed) (inside : p.Admits b) :
    Awaits (bytes ++ [b]) ⟨p.bits * 64 + (b.toNat - 0x80), p.owed - 1, 0x80, 0xBF⟩ := by
  cases h with
  | two | secondOfThree | thirdOfFour => simp at more
  | three lead range => exact .secondOfThree lead ((range b).mp inside)
  | four lead range => exact .secondOfFour lead ((range b).mp inside)
  | secondOfFour lead second => exact .thirdOfFour lead second (admitsTail.mp inside)

theorem last (h : Awaits bytes p) (one : p.owed ≤ 1) (inside : p.Admits b) :
    String.utf8EncodeChar (Char.ofNat (p.bits * 64 + (b.toNat - 0x80))) = bytes ++ [b] := by
  cases h with
  | three | four | secondOfFour => simp at one
  | two lead range =>
    obtain ⟨⟨least, greatest⟩, -⟩ := (range b).mp inside
    dsimp only
    exact Encoding.char (.two (by omega) (by omega) (by omega) (by omega)) (by omega)
  | secondOfThree lead second =>
    obtain ⟨least, greatest⟩ := admitsTail.mp inside
    obtain ⟨⟨low, high⟩, long, surrogate, -⟩ := second
    dsimp only
    exact Encoding.char (.three (by omega) (by omega) (by omega) (by omega) (by omega)) (by omega)
  | thirdOfFour lead second third =>
    obtain ⟨least, greatest⟩ := admitsTail.mp inside
    obtain ⟨⟨low, high⟩, -, -, long, large⟩ := second
    obtain ⟨low3, high3⟩ := third
    dsimp only
    exact Encoding.char (.four (by omega) (by omega) (by omega) (by omega) (by omega)) (by omega)

theorem outside (h : Awaits bytes p) (outside : ¬ p.Admits b) : ¬ Starts (bytes ++ [b]) := by
  intro starts
  obtain ⟨n, rest, encoded, valid⟩ := starts.number
  refine outside ?_
  cases h with
  | two lead range | three lead range | four lead range =>
    refine (range b).mpr ?_
    unfold Follows IsTail
    cases encoded <;> omega
  | secondOfThree lead | secondOfFour lead | thirdOfFour lead =>
    refine admitsTail.mpr ?_
    unfold IsTail
    cases encoded <;> omega

theorem admits (h : Awaits bytes p) : ∃ b, p.Admits b := by
  have tail : IsTail (0x80 : UInt8).toNat := ⟨by decide, by decide⟩
  cases h with
  | two lead range | three lead range | four lead range =>
    obtain ⟨b, follows⟩ := follower _
    exact ⟨b, (range b).mpr follows⟩
  | secondOfThree | secondOfFour | thirdOfFour => exact ⟨0x80, admitsTail.mpr tail⟩

theorem startsBehind {bytes : List UInt8} {p : Pending} {b : UInt8} (h : Awaits bytes p) (inside : p.Admits b) :
    Starts (bytes ++ [b]) := by
  by_cases more : 1 < p.owed
  · have behind := h.next more inside
    obtain ⟨d, another⟩ := behind.admits
    exact (startsBehind behind another).front
  · exact ⟨_, [], by rw [List.append_nil, h.last (Nat.le_of_not_lt more) inside]⟩
termination_by p.owed

theorem notEmpty (h : Awaits bytes p) : bytes ≠ [] := by
  cases h <;> simp

theorem starts (h : Awaits bytes p) : Starts bytes := by
  obtain ⟨b, inside⟩ := h.admits
  exact (h.startsBehind inside).front

theorem unfinished (h : Awaits bytes p) (c : Char) : ¬ String.utf8EncodeChar c <+: bytes := by
  rintro ⟨rest, rfl⟩
  obtain ⟨b, inside⟩ := h.admits
  obtain ⟨n, more, encoded, -⟩ := (h.startsBehind inside).number
  rw [List.append_assoc, List.append_assoc] at encoded
  simpa using (encodingOf c).prefixFree encoded

end Awaits

inductive Begun (done : List Char) (b : UInt8) : Reading → Prop
  | whole {c : Char} (encoded : String.utf8EncodeChar c = [b]) : Begun done b ⟨c :: done, none⟩
  | started {p : Pending} (awaits : Awaits [b] p) : Begun done b ⟨done, some p⟩
  | foreign (unstarted : ¬ Starts [b]) : Begun done b ⟨replacement :: done, .none⟩

theorem begun (done : List Char) (b : UInt8) : Begun done b (begin done b) := by
  unfold begin
  simp only [UInt8.lt_iff_toNat_lt, UInt8.le_iff_toNat_le, Bool.and_eq_true, decide_eq_true_eq, UInt8.reduceToNat]
  split
  · next ascii => exact .whole (Encoding.char (.one ascii rfl) (.inl (Nat.lt_trans ascii (by decide))))
  split
  · next lead =>
    refine .started (.two lead fun x => ?_)
    simp only [UInt8.le_iff_toNat_le, UInt8.reduceToNat, Follows, IsTail]
    omega
  split
  · next lead =>
    refine .started (.three lead fun x => ?_)
    simp only [UInt8.le_iff_toNat_le, Follows, IsTail, ← UInt8.toNat_inj, UInt8.reduceToNat]
    split <;> split <;> simp only [UInt8.reduceToNat] <;> omega
  split
  · next lead =>
    refine .started (.four lead fun x => ?_)
    simp only [UInt8.le_iff_toNat_le, Follows, IsTail, ← UInt8.toNat_inj, UInt8.reduceToNat]
    split <;> split <;> simp only [UInt8.reduceToNat] <;> omega
  · refine .foreign fun starts => ?_
    obtain ⟨n, rest, encoded, valid⟩ := starts.number
    cases encoded <;> omega

/-- Bytes that make no character: the longest stretch that an encoding could start with, broken off, or a single
byte that none starts with. -/
structure IsBroken (piece rest : List UInt8) : Prop where
  begins : Starts piece ∨ ∃ b, piece = [b]
  notEmpty : piece ≠ []
  unreadable : ∀ c : Char, ¬ String.utf8EncodeChar c <+: piece ++ rest
  longest : ∀ b, rest.head? = some b → ¬ Starts (piece ++ [b])

inductive Decoded : List UInt8 → List Char → Prop
  | nil : Decoded [] []
  | char (c : Char) {rest : List UInt8} {text : List Char} (behind : Decoded rest text) :
      Decoded (String.utf8EncodeChar c ++ rest) (c :: text)
  | broken {piece rest : List UInt8} {text : List Char} (broken : IsBroken piece rest) (behind : Decoded rest text) :
      Decoded (piece ++ rest) (replacement :: text)

theorem unreadableOf {piece rest : List UInt8} (unfinished : ∀ c : Char, ¬ String.utf8EncodeChar c <+: piece)
    (longest : ∀ b, rest.head? = some b → ¬ Starts (piece ++ [b])) (c : Char) :
    ¬ String.utf8EncodeChar c <+: piece ++ rest := by
  intro ahead
  rcases List.prefix_or_prefix_of_prefix ahead (List.prefix_append piece rest) with inside | ⟨more, same⟩
  · exact unfinished c inside
  · rw [← same, List.prefix_append_right_inj] at ahead
    obtain ⟨behind, rfl⟩ := ahead
    cases more with
    | nil => exact unfinished c ⟨[], by rw [← same, List.append_nil, List.append_nil]⟩
    | cons b more => exact longest b rfl ⟨c, more, by rw [← same, List.append_assoc]; rfl⟩

theorem Awaits.broken {bytes rest : List UInt8} {p : Pending} (h : Awaits bytes p)
    (outside : ∀ b, rest.head? = some b → ¬ p.Admits b) : IsBroken bytes rest := by
  have longest (b : UInt8) (head : rest.head? = some b) : ¬ Starts (bytes ++ [b]) := h.outside (outside b head)
  exact ⟨.inl h.starts, h.notEmpty, unreadableOf h.unfinished longest, longest⟩

theorem brokenByte {b : UInt8} (foreign : ¬ Starts [b]) (rest : List UInt8) : IsBroken [b] rest := by
  have longest (d : UInt8) (_ : rest.head? = some d) : ¬ Starts ([b] ++ [d]) := fun starts => foreign starts.front
  refine ⟨.inr ⟨b, rfl⟩, by simp, unreadableOf (fun c inside => ?_) longest, longest⟩
  obtain ⟨more, same⟩ := inside
  cases encoded : String.utf8EncodeChar c with
  | nil => exact String.utf8EncodeChar_ne_nil encoded
  | cons a tail =>
    rw [encoded, List.cons_append, List.cons.injEq] at same
    exact foreign ⟨c, tail, by rw [encoded, ← same.1]; rfl⟩

theorem stepInside {p : Pending} {b : UInt8} (inside : p.Admits b) (done : List Char) :
    Reading.step ⟨done, some p⟩ b = if p.owed ≤ 1 then ⟨Char.ofNat (p.bits * 64 + (b.toNat - 0x80)) :: done, none⟩
      else ⟨done, some ⟨p.bits * 64 + (b.toNat - 0x80), p.owed - 1, 0x80, 0xBF⟩⟩ := by
  simp only [Reading.step, inside.1, inside.2, decide_true, Bool.and_self, if_true]

theorem stepOutside {p : Pending} {b : UInt8} (outside : ¬ p.Admits b) (done : List Char) :
    Reading.step ⟨done, some p⟩ b = begin (replacement :: done) b := by
  have closed : (p.least ≤ b && b ≤ p.greatest) = false := by simpa [Pending.Admits] using outside
  simp only [Reading.step, closed, Bool.false_eq_true, if_false]

def Holds (held : List UInt8) : Option Pending → Prop
  | none => held = []
  | some p => Awaits held p

theorem decodedFrom (held : List UInt8) (pending : Option Pending) (holds : Holds held pending)
    (bytes : List UInt8) (done : List Char) : ∃ text, Decoded (held ++ bytes) text
      ∧ (bytes.foldl Reading.step ⟨done, pending⟩).finish = done.reverse ++ text := by
  induction bytes generalizing held pending done with
  | nil =>
    cases pending with
    | none =>
      obtain rfl : held = [] := holds
      exact ⟨[], .nil, by simp [Reading.finish]⟩
    | some p => exact ⟨[replacement], .broken (Awaits.broken holds (by simp)) .nil, by simp [Reading.finish]⟩
  | cons b bytes ih =>
    have between (c : Char) (done : List Char) : ∃ text, Decoded bytes text
        ∧ (bytes.foldl Reading.step ⟨c :: done, none⟩).finish = done.reverse ++ c :: text := by
      obtain ⟨text, decoded, same⟩ := ih [] none rfl (c :: done)
      exact ⟨text, decoded, by rw [same, List.reverse_cons, List.append_assoc]; rfl⟩
    have fresh (done : List Char) : ∃ text, Decoded (b :: bytes) text
        ∧ (bytes.foldl Reading.step (begin done b)).finish = done.reverse ++ text := by
      generalize found : begin done b = r
      cases found ▸ begun done b with
      | @whole c encoded =>
        obtain ⟨text, decoded, same⟩ := between c done
        have read := Decoded.char c decoded
        rw [encoded] at read
        exact ⟨c :: text, read, same⟩
      | @started p awaits => exact ih [b] (some p) awaits done
      | foreign unstarted =>
        obtain ⟨text, decoded, same⟩ := between replacement done
        exact ⟨replacement :: text, .broken (brokenByte unstarted _) decoded, same⟩
    cases pending with
    | none =>
      obtain rfl : held = [] := holds
      exact fresh done
    | some p =>
      have awaits : Awaits held p := holds
      rw [List.foldl_cons]
      by_cases inside : p.Admits b
      · rw [stepInside inside]
        split
        · next one =>
          obtain ⟨text, decoded, same⟩ := between (Char.ofNat (p.bits * 64 + (b.toNat - 0x80))) done
          have read := Decoded.char (Char.ofNat (p.bits * 64 + (b.toNat - 0x80))) decoded
          rw [awaits.last one inside, List.append_assoc] at read
          exact ⟨_, read, same⟩
        · next more =>
          have behind := awaits.next (Nat.lt_of_not_le more) inside
          have read := ih (held ++ [b]) (some _) behind done
          rwa [List.append_assoc] at read
      · rw [stepOutside inside]
        obtain ⟨text, decoded, same⟩ := fresh (replacement :: done)
        refine ⟨replacement :: text, .broken (awaits.broken fun d head => ?_) decoded, ?_⟩
        · cases head
          exact inside
        · rw [same, List.reverse_cons, List.append_assoc]
          rfl

theorem decodedOf (bytes : List UInt8) : Decoded bytes (decode bytes) := by
  obtain ⟨text, decoded, same⟩ := decodedFrom [] none rfl bytes []
  have whole : decode bytes = text := same
  exact whole ▸ decoded

theorem encodingAhead {c d : Char} {bytes : List UInt8} (one : String.utf8EncodeChar c <+: bytes)
    (two : String.utf8EncodeChar d <+: bytes) : c = d := by
  have apart {c d : Char} (ahead : String.utf8EncodeChar c <+: String.utf8EncodeChar d) : c = d := by
    obtain ⟨rest, same⟩ := ahead
    obtain rfl := (encodingOf c).prefixFree (same ▸ encodingOf d)
    rw [List.append_nil] at same
    exact Char.toNat_inj.mp ((encodingOf c).number (same ▸ encodingOf d))
  rcases List.prefix_or_prefix_of_prefix one two with ahead | ahead
  · exact apart ahead
  · exact (apart ahead).symm

theorem IsBroken.unique {piece rest other behind : List UInt8} (one : IsBroken piece rest)
    (two : IsBroken other behind) (same : piece ++ rest = other ++ behind) : piece = other ∧ rest = behind := by
  -- The longer piece starts with the shorter one and the byte behind that, which starts nothing.
  have noLonger {piece rest other : List UInt8} (short : IsBroken piece rest) {b : UInt8} {more : List UInt8}
      (long : IsBroken (piece ++ b :: more) other) (ahead : rest.head? = some b) : False := by
    rcases long.begins with starts | ⟨d, one⟩
    · rw [← List.singleton_append, ← List.append_assoc] at starts
      exact short.longest b ahead starts.front
    · have size := congrArg List.length one
      simp only [List.length_append, List.length_cons, List.length_nil] at size
      exact short.notEmpty (List.length_eq_zero_iff.mp (by omega))
  rcases List.append_eq_append_iff.mp same with ⟨more, rfl, rfl⟩ | ⟨more, rfl, rfl⟩
  · cases more with
    | nil => exact ⟨(List.append_nil _).symm, rfl⟩
    | cons b more => exact (noLonger one two rfl).elim
  · cases more with
    | nil => exact ⟨List.append_nil _, rfl⟩
    | cons b more => exact (noLonger two one rfl).elim

theorem Decoded.unique {bytes : List UInt8} {text other : List Char} (one : Decoded bytes text)
    (two : Decoded bytes other) : text = other := by
  induction one generalizing other with
  | nil =>
    generalize whole : [] = bytes at two
    cases two with
    | nil => rfl
    | char d => exact absurd (List.append_eq_nil_iff.mp whole.symm).1 String.utf8EncodeChar_ne_nil
    | broken broken => exact absurd (List.append_eq_nil_iff.mp whole.symm).1 broken.notEmpty
  | @char c rest text behind ih =>
    generalize whole : String.utf8EncodeChar c ++ rest = bytes at two
    cases two with
    | nil => exact absurd (List.append_eq_nil_iff.mp whole).1 String.utf8EncodeChar_ne_nil
    | char d later =>
      obtain rfl := encodingAhead (whole ▸ List.prefix_append _ _) (List.prefix_append (String.utf8EncodeChar d) _)
      rw [ih (List.append_cancel_left whole ▸ later)]
    | broken broken => exact absurd (whole ▸ List.prefix_append _ _) (broken.unreadable c)
  | @broken piece rest text cut behind ih =>
    generalize whole : piece ++ rest = bytes at two
    cases two with
    | nil => exact absurd (List.append_eq_nil_iff.mp whole).1 cut.notEmpty
    | char d => exact absurd (whole ▸ List.prefix_append _ _) (cut.unreadable d)
    | broken other later =>
      obtain ⟨-, rfl⟩ := cut.unique other whole
      rw [ih later]

theorem decodeIff {bytes : List UInt8} {text : List Char} : decode bytes = text ↔ Decoded bytes text :=
  ⟨fun same => same ▸ decodedOf bytes, fun decoded => (decodedOf bytes).unique decoded⟩

end ConstraintDesk.Utf8
