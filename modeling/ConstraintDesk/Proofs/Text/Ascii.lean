import ConstraintDesk.Proofs.Text.Utf8

/-! Text of ASCII characters is where its bytes are. No other character, and nothing that is broken, has bytes of
theirs, so replacing what is broken neither makes such a text nor hides one. -/
namespace ConstraintDesk.Utf8

/-- Text and the bytes that it was read from, where its ASCII characters are single bytes and nothing else has bytes
of theirs. -/
inductive Aligned : List UInt8 → List Char → Prop
  | nil : Aligned [] []
  | ascii {b : UInt8} {c : Char} {rest : List UInt8} {text : List Char} (small : c.toNat < 0x80)
      (same : b.toNat = c.toNat) (behind : Aligned rest text) : Aligned (b :: rest) (c :: text)
  | foreign {c : Char} {b : UInt8} {piece rest : List UInt8} {text : List Char} (large : 0x80 ≤ c.toNat)
      (high : ∀ d ∈ b :: piece, 0x80 ≤ d.toNat) (behind : Aligned rest text) :
      Aligned (b :: piece ++ rest) (c :: text)

theorem encodeAscii {c : Char} (small : c.toNat < 0x80) :
    ∃ b : UInt8, String.utf8EncodeChar c = [b] ∧ b.toNat = c.toNat := by
  have encoded := encodingOf c
  generalize String.utf8EncodeChar c = bytes at encoded
  cases encoded with
  | one _ lead => exact ⟨_, rfl, lead⟩
  | two | three | four => omega

theorem encodeForeign {c : Char} (large : 0x80 ≤ c.toNat) : ∀ b ∈ String.utf8EncodeChar c, 0x80 ≤ b.toNat := by
  have encoded := encodingOf c
  generalize String.utf8EncodeChar c = bytes at encoded
  cases encoded with
  | one => omega
  | two | three | four => simp only [List.forall_mem_cons]; simp; omega

theorem IsBroken.high {piece rest : List UInt8} (h : IsBroken piece rest) : ∀ b ∈ piece, 0x80 ≤ b.toNat := by
  rcases h.begins with ⟨c, ahead⟩ | ⟨b, rfl⟩
  · intro b inside
    refine encodeForeign (Nat.le_of_not_lt fun small => ?_) b (ahead.subset inside)
    obtain ⟨a, encoded, -⟩ := encodeAscii small
    obtain ⟨x, tail, rfl⟩ := List.exists_cons_of_ne_nil h.notEmpty
    obtain ⟨more, whole⟩ := ahead
    obtain ⟨rfl, nothing⟩ := List.cons.inj (whole.trans encoded)
    exact h.unreadable c (encoded ▸ ⟨tail ++ rest, rfl⟩)
  · intro d inside
    obtain rfl := List.mem_singleton.mp inside
    refine Nat.le_of_not_lt fun small => h.unreadable (Char.ofNat d.toNat) ?_
    rw [Encoding.char (.one small rfl) (.inl (Nat.lt_trans small (by decide)))]
    exact List.prefix_append _ _

theorem Decoded.aligned {bytes : List UInt8} {text : List Char} (h : Decoded bytes text) : Aligned bytes text := by
  induction h with
  | nil => exact .nil
  | @char c rest text behind ih =>
    by_cases small : c.toNat < 0x80
    · obtain ⟨b, encoded, same⟩ := encodeAscii small
      exact encoded ▸ .ascii small same ih
    · have high := encodeForeign (Nat.le_of_not_lt small)
      obtain ⟨b, piece, encoded⟩ := List.exists_cons_of_ne_nil (String.utf8EncodeChar_ne_nil (c := c))
      rw [encoded] at high ⊢
      exact .foreign (Nat.le_of_not_lt small) high ih
  | @broken piece rest text cut behind ih =>
    have high := cut.high
    obtain ⟨b, piece, rfl⟩ := List.exists_cons_of_ne_nil cut.notEmpty
    exact .foreign (by decide) high ih

def IsAscii (text : List Char) : Prop := ∀ c ∈ text, c.toNat < 0x80

theorem encodeAsciiCons {c : Char} (small : c.toNat < 0x80) (part : List Char) :
    ∃ b : UInt8, encode (c :: part) = b :: encode part ∧ b.toNat = c.toNat := by
  obtain ⟨b, encoded, same⟩ := encodeAscii small
  exact ⟨b, by rw [encode, List.flatMap_cons, encoded]; rfl, same⟩

theorem asciiAhead {bytes : List UInt8} {text part : List Char} (aligned : Aligned bytes text) (ascii : IsAscii part) :
    part <+: text ↔ encode part <+: bytes := by
  induction aligned generalizing part with
  | nil =>
    cases part with
    | nil => exact iff_of_true List.prefix_rfl List.prefix_rfl
    | cons d part =>
      obtain ⟨x, encoded, -⟩ := encodeAsciiCons (ascii d List.mem_cons_self) part
      rw [encoded, List.prefix_nil, List.prefix_nil]
      exact iff_of_false (List.cons_ne_nil _ _) (List.cons_ne_nil _ _)
  | @ascii b c rest text small same behind ih =>
    cases part with
    | nil => exact iff_of_true List.nil_prefix List.nil_prefix
    | cons d part =>
      obtain ⟨x, encoded, own⟩ := encodeAsciiCons (ascii d List.mem_cons_self) part
      rw [encoded, List.cons_prefix_cons, List.cons_prefix_cons,
        ih fun e member => ascii e (List.mem_cons_of_mem d member), ← Char.toNat_inj, ← UInt8.toNat_inj, own, same]
  | @foreign c b piece rest text large high behind ih =>
    cases part with
    | nil => exact iff_of_true List.nil_prefix List.nil_prefix
    | cons d part =>
      have small := ascii d List.mem_cons_self
      have above := high b List.mem_cons_self
      obtain ⟨x, encoded, own⟩ := encodeAsciiCons small part
      rw [encoded, List.cons_append, List.cons_prefix_cons, List.cons_prefix_cons]
      refine iff_of_false (fun ahead => ?_) fun ahead => ?_
      · rw [ahead.1] at small
        omega
      · rw [ahead.1] at own
        omega

theorem asciiBehind {part : List Char} (notEmpty : part ≠ []) (ascii : IsAscii part) {piece : List UInt8}
    (high : ∀ d ∈ piece, 0x80 ≤ d.toNat) (rest : List UInt8) :
    encode part <:+: piece ++ rest ↔ encode part <:+: rest := by
  obtain ⟨d, part, rfl⟩ := List.exists_cons_of_ne_nil notEmpty
  obtain ⟨x, encoded, own⟩ := encodeAsciiCons (ascii d List.mem_cons_self) part
  have small := ascii d List.mem_cons_self
  induction piece with
  | nil => rfl
  | cons b piece ih =>
    have above := high b List.mem_cons_self
    have apart : ¬ encode (d :: part) <+: b :: (piece ++ rest) := by
      rw [encoded, List.cons_prefix_cons]
      rintro ⟨rfl, -⟩
      omega
    rw [List.cons_append, List.infix_cons_iff, or_iff_right apart]
    exact ih fun e member => high e (List.mem_cons_of_mem b member)

theorem asciiInside {bytes : List UInt8} {text part : List Char} (aligned : Aligned bytes text) (ascii : IsAscii part) :
    part <:+: text ↔ encode part <:+: bytes := by
  by_cases empty : part = []
  · subst empty
    exact iff_of_true List.nil_infix List.nil_infix
  induction aligned with
  | nil =>
    rw [List.infix_nil, List.infix_nil, ← List.prefix_nil, ← List.prefix_nil]
    exact asciiAhead .nil ascii
  | @ascii b c rest text small same behind ih =>
    rw [List.infix_cons_iff, List.infix_cons_iff, ih, asciiAhead (.ascii small same behind) ascii]
  | @foreign c b piece rest text large high behind ih =>
    have apart : ¬ part <+: c :: text := fun ahead => by
      obtain ⟨d, part, rfl⟩ := List.exists_cons_of_ne_nil empty
      have small := ascii d List.mem_cons_self
      rw [(List.cons_prefix_cons.mp ahead).1] at small
      omega
    rw [asciiBehind empty ascii high, List.infix_cons_iff, or_iff_right apart, ih]

end ConstraintDesk.Utf8
