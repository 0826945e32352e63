import ConstraintDesk.Desk.Dialect
import ConstraintDesk.Proofs.Text.Occurrence
import ConstraintDesk.Proofs.Yaml.Refusals

/-! Where the messages of YAML name places. The words in front of a place stand in a message for each place that
it gives, and otherwise only in what it quotes of the document: a key on the way to a node or the text of a scalar. -/
namespace ConstraintDesk

open Text

def placeWords : List Char := " at line ".toList

theorem placeWordsEq : placeWords = [' ', 'a', 't', ' ', 'l', 'i', 'n', 'e', ' '] := String.toList_ofList

theorem silentOf {cs : List Char} (absent : occursIn [' ', 'a', 't', ' ', 'l', 'i', 'n', 'e', ' '] cs = false) :
    ¬ placeWords <:+: cs := by
  rw [placeWordsEq, ← occursIff, absent]
  exact Bool.false_ne_true

theorem silentSpelled {front cs back : List Char}
    (absent : occursIn [' ', 'a', 't', ' ', 'l', 'i', 'n', 'e', ' '] (front ++ cs ++ back) = false) :
    ¬ placeWords <:+: front ++ (String.ofList cs).toList ++ back := by
  rw [String.toList_ofList]
  exact silentOf absent

theorem silentAlone {cs : List Char} (absent : occursIn [' ', 'a', 't', ' ', 'l', 'i', 'n', 'e', ' '] cs = false) :
    ¬ placeWords <:+: (String.ofList cs).toList := by
  rw [String.toList_ofList]
  exact silentOf absent

theorem separatorOf {c : Char} (other : c ∉ [' ', 'a', 't', 'l', 'i', 'n', 'e']) : c ∉ placeWords := by
  rw [placeWordsEq]
  simp only [List.mem_cons, not_or] at other ⊢
  tauto

def cutPlace (cs : List Char) : List Char := (beforeLast? placeWords cs).getD cs

theorem toListStripPlace (s : String) : (Dialect.stripPlace s).toList = cutPlace s.toList := by
  unfold Dialect.stripPlace cutPlace placeWords
  split
  · next before last => rw [last, String.toList_ofList, Option.getD_some]
  · next nothing => rw [nothing, Option.getD_none]

theorem cutOfSilent {cs : List Char} (silent : ¬ placeWords <:+: cs) : cutPlace cs = cs := by
  rw [cutPlace, beforeLastNone.mpr silent, Option.getD_none]

theorem cutOfPlace (front : List Char) {c : Char} (other : c ∉ placeWords) {back : List Char} (silent : ¬ placeWords <:+: back) :
    cutPlace (front ++ (placeWords ++ c :: back)) = front := by
  have behind : ¬ placeWords <:+: ['a', 't', ' ', 'l', 'i', 'n', 'e', ' '] ++ c :: back := by
    rw [infixSeparated other, not_or]
    exact ⟨silentOf (by decide), silent⟩
  rw [placeWordsEq] at behind
  rw [cutPlace, placeWordsEq, beforeLastOf front behind, Option.getD_some]

theorem cutTwice (cs : List Char) : placeWords <:+: cutPlace cs
    ↔ ∃ front between back, cs = front ++ (placeWords ++ (between ++ (placeWords ++ back))) := by
  cases last : beforeLast? placeWords cs with
  | none =>
    have silent := beforeLastNone.mp last
    rw [cutOfSilent silent]
    refine iff_of_false silent ?_
    rintro ⟨front, between, back, rfl⟩
    exact silent ⟨front, between ++ (placeWords ++ back), by simp⟩
  | some before => rw [cutPlace, last, Option.getD_some, beforeLastTwice last]

theorem digitChars (n : Nat) : ∀ c ∈ (toString n).toList, c.isDigit = true :=
  fun _ member => Nat.isDigit_of_mem_toDigits (b := 10) (by decide) (by decide) (by simpa using member)

theorem digitOther {c : Char} (digit : c.isDigit = true) : c ∉ [' ', 'a', 't', 'l', 'i', 'n', 'e'] := by
  intro member
  have letters : [' ', 'a', 't', 'l', 'i', 'n', 'e'].all (fun x => !x.isDigit) = true := rfl
  simpa [digit] using List.all_eq_true.mp letters c member

theorem numberSilent (n : Nat) : 'a' ∉ (toString n).toList :=
  fun member => absurd (digitChars n 'a' member) (by decide)

theorem placeSpelled (line column : Nat) : ∃ c back,
    s!" at line {line} column {column}".toList = placeWords ++ c :: back ∧ c ∉ placeWords ∧ 'a' ∉ back := by
  obtain ⟨c, digits, first⟩ : ∃ c digits, (toString line).toList = c :: digits := List.exists_cons_of_ne_nil (by simp)
  have digit := digitChars line c (by rw [first]; exact List.mem_cons_self)
  have later : 'a' ∉ digits := fun member => numberSilent line (by rw [first]; exact List.mem_cons_of_mem _ member)
  refine ⟨c, digits ++ (" column ".toList ++ (toString column).toList), ?_, separatorOf (digitOther digit), ?_⟩
  · simp only [String.toList_append, first, List.append_assoc]
    rfl
  · have word : 'a' ∉ " column ".toList := by rw [String.toList_ofList]; decide
    simp only [List.mem_append, not_or]
    exact ⟨later, word, numberSilent _⟩

namespace Yaml

theorem placeTextOrigin : placeText Mark.origin = "" := rfl

theorem placeTextTold {m : Mark} (placed : m ≠ Mark.origin) :
    ∃ c back, (placeText m).toList = placeWords ++ c :: back ∧ c ∉ placeWords ∧ 'a' ∉ back := by
  have other : ¬ (m.line = 0 && m.column = 0) = true := by
    obtain ⟨line, column⟩ := m
    simpa [Mark.origin] using placed
  rw [placeText, if_neg other]
  exact placeSpelled (m.line + 1) (m.column + 1)

theorem problemSilent (p : Problem) : ¬ placeWords <:+: p.message.toList ++ [' ', 'a', 't', ' '] := by
  have spelled : ¬ placeWords <:+: [] ++ p.message.toList ++ [' ', 'a', 't', ' '] := by
    cases p <;> exact silentSpelled (by decide)
  rwa [List.nil_append] at spelled

theorem constructSilent (c : Construct) : ¬ placeWords <:+: ' ' :: c.message.toList := by
  have spelled : ¬ placeWords <:+: [' '] ++ c.message.toList ++ [] := by
    cases c <;> exact silentSpelled (by decide)
  rwa [List.append_nil] at spelled

theorem silentBeforeConstruct {front : List Char} (silent : ¬ placeWords <:+: front) (c : Construct) :
    ¬ placeWords <:+: front ++ ',' :: ' ' :: c.message.toList := by
  rw [infixSeparated (separatorOf (by decide)), not_or]
  exact ⟨silent, constructSilent c⟩

theorem cutOfPlaceText (front : List Char) {m : Mark} (placed : m ≠ Mark.origin) {back : List Char}
    (silent : ∀ {more : List Char}, ¬ placeWords <:+: more → ¬ placeWords <:+: more ++ back) :
    cutPlace (front ++ ((placeText m).toList ++ back)) = front := by
  obtain ⟨c, more, told, other, later⟩ := placeTextTold placed
  have absent : ¬ placeWords <:+: more := notInfix (by rw [placeWordsEq]; decide) later
  rw [told, List.append_assoc, List.cons_append]
  exact cutOfPlace front other (silent absent)

theorem cutAtPlace (front : List Char) {m : Mark} (placed : m ≠ Mark.origin) :
    cutPlace (front ++ (placeText m).toList) = front := by
  have cut := @cutOfPlaceText front m placed [] (by simp)
  rwa [List.append_nil] at cut

theorem infixOfPlaceText (front : List Char) {m : Mark} (placed : m ≠ Mark.origin) (back : List Char) :
    placeWords <:+: front ++ ((placeText m).toList ++ back) := by
  obtain ⟨c, more, told, -, -⟩ := placeTextTold placed
  exact ⟨front, c :: more ++ back, by simp [told]⟩

namespace Fault

def opening (f : Fault) : List Char :=
  f.problem.message.toList ++ (if f.place.mark = Mark.origin && f.offset ≠ 0 then s!" at position {f.offset}"
    else placeText f.place.mark).toList

theorem openingTold {f : Fault} (placed : f.place.mark ≠ Mark.origin) :
    f.opening = f.problem.message.toList ++ (placeText f.place.mark).toList := by
  simp [opening, placed]

theorem openingSilent {f : Fault} (start : f.place.mark = Mark.origin) : ¬ placeWords <:+: f.opening := by
  have before := problemSilent f.problem
  rw [opening, start]
  split
  · have spelled : (s!" at position {f.offset}").toList
        = [' ', 'a', 't', ' '] ++ 'p' :: (['o', 's', 'i', 't', 'i', 'o', 'n', ' '] ++ (toString f.offset).toList) := by
      rw [String.toList_append]
      exact congrArg (· ++ (toString f.offset).toList) String.toList_ofList
    rw [spelled, ← List.append_assoc, infixSeparated (separatorOf (by decide)), not_or]
    refine ⟨before, notInfix (c := 'a') (by rw [placeWordsEq]; decide) ?_⟩
    simp only [List.mem_append, not_or]
    exact ⟨by decide, numberSilent f.offset⟩
  · rw [placeTextOrigin, String.toList_empty, List.append_nil]
    exact fun inside => before (inside.trans (List.prefix_append ..).isInfix)

theorem toListAlone {f : Fault} (alone : f.context = none) : f.message.toList = f.opening := by
  simp [message, opening, alone]

theorem toListInside {f : Fault} {construct : Construct} {began : Place} (inside : f.context = some (construct, began)) :
    f.message.toList = f.opening ++ ',' :: ' ' :: construct.message.toList
      ++ (if began.mark = f.place.mark then "" else placeText began.mark).toList := by
  simp [message, opening, inside]

end Fault

theorem placeOfFault (f : Fault) : placeWords <:+: cutPlace f.message.toList
    ↔ f.place.mark ≠ Mark.origin ∧ ∃ construct began, f.context = some (construct, began)
      ∧ began.mark ≠ Mark.origin ∧ began.mark ≠ f.place.mark := by
  have problemSilent : ¬ placeWords <:+: f.problem.message.toList :=
    fun inside => problemSilent f.problem (inside.trans (List.prefix_append ..).isInfix)
  cases context : f.context with
  | none =>
    refine iff_of_false ?_ (by simp)
    rw [Fault.toListAlone context]
    by_cases start : f.place.mark = Mark.origin
    · rw [cutOfSilent (Fault.openingSilent start)]
      exact Fault.openingSilent start
    · rwa [Fault.openingTold start, cutAtPlace _ start]
  | some inside =>
    obtain ⟨construct, began⟩ := inside
    rw [Fault.toListInside context]
    by_cases told : began.mark ≠ Mark.origin ∧ began.mark ≠ f.place.mark
    · have both : placeText began.mark = if began.mark = f.place.mark then "" else placeText began.mark := (if_neg told.2).symm
      rw [← both, cutAtPlace _ told.1]
      by_cases start : f.place.mark = Mark.origin
      · exact iff_of_false (silentBeforeConstruct (Fault.openingSilent start) construct) (fun h => h.1 start)
      · refine iff_of_true ?_ ⟨start, construct, began, rfl, told⟩
        rw [Fault.openingTold start, List.append_assoc]
        exact infixOfPlaceText _ start _
    · have silent : (if began.mark = f.place.mark then "" else placeText began.mark) = "" := by
        split
        · rfl
        · next other =>
          have start : began.mark = Mark.origin := by_contra fun placed => told ⟨placed, other⟩
          rw [start, placeTextOrigin]
      rw [silent, String.toList_empty, List.append_nil]
      refine iff_of_false ?_ ?_
      · by_cases start : f.place.mark = Mark.origin
        · have whole := silentBeforeConstruct (Fault.openingSilent start) construct
          rwa [cutOfSilent whole]
        · rw [Fault.openingTold start, List.append_assoc, cutOfPlaceText _ start fun absent => silentBeforeConstruct absent construct]
          exact problemSilent
      · rintro ⟨-, _, _, same, other⟩
        cases same
        exact told other

def Path.keys : Path → List (List Char)
  | .root => []
  | .item parent _ | .unnamed parent | .aliased parent => parent.keys
  | .key parent name => parent.keys ++ [name]

theorem placeOfPath (path : Path) : placeWords <:+: path.text.toList ↔ ∃ key ∈ path.keys, placeWords <:+: key := by
  have dot : ".".toList = ['.'] := String.toList_ofList
  have joined (parent : Path) (ih : placeWords <:+: parent.text.toList ↔ ∃ key ∈ parent.keys, placeWords <:+: key)
      (name : List Char) : placeWords <:+: (parent.joint parent.text).toList ++ name
        ↔ (∃ key ∈ parent.keys, placeWords <:+: key) ∨ placeWords <:+: name := by
    cases parent with
    | root => simp [Path.joint, Path.keys]
    | item | key | unnamed | aliased =>
      simp only [Path.joint]
      rw [String.toList_append, dot, List.append_assoc, List.singleton_append, infixSeparated (separatorOf (by decide)), ih]
  induction path with
  | root =>
    have silent : ¬ placeWords <:+: ['.'] := silentOf (by decide)
    rw [Path.text, dot]
    simp [Path.keys, silent]
  | item parent index ih =>
    have spelled : (Path.item parent index).text.toList
        = parent.text.toList ++ '[' :: ((toString index).toList ++ [']']) := by
      change (parent.text ++ "[" ++ toString index ++ "]").toList = _
      rw [String.toList_append, String.toList_append, String.toList_append, List.append_assoc, List.append_assoc]
      exact congrArg₂ (fun left right => parent.text.toList ++ (left ++ ((toString index).toList ++ right)))
        String.toList_ofList String.toList_ofList
    have silent : ¬ placeWords <:+: (toString index).toList ++ [']'] := by
      refine notInfix (c := 'a') (by rw [placeWordsEq]; decide) ?_
      rw [List.mem_append, not_or]
      exact ⟨numberSilent index, by decide⟩
    rw [spelled, infixSeparated (separatorOf (by decide))]
    exact (or_iff_left silent).trans ih
  | key parent name ih =>
    rw [Path.text, String.toList_append, String.toList_ofList, joined parent ih]
    simp [Path.keys, or_and_right, exists_or]
  | unnamed parent ih =>
    have mark : "?".toList = ['?'] := String.toList_ofList
    have silent : ¬ placeWords <:+: ['?'] := silentOf (by decide)
    rw [Path.text, String.toList_append, mark, joined parent ih]
    simp [Path.keys, silent]
  | aliased parent ih => exact ih

theorem hexSilent (n : Nat) : ' ' ∉ Nat.toDigits 16 n := by
  have single : ∀ d < 16, ' ' ≠ Nat.digitChar d := by decide
  induction n using Nat.strongRecOn with
  | ind n ih =>
    by_cases small : n < 16
    · rw [Nat.toDigits_of_lt_base small, List.mem_singleton]
      exact single n small
    · have parts := Nat.toDigits_append_toDigits (b := 16) (n := n / 16) (d := n % 16) (by decide) (by omega) (by omega)
      rw [Nat.div_add_mod] at parts
      rw [← parts, Nat.toDigits_of_lt_base (Nat.mod_lt n (by decide)), List.mem_append, List.mem_singleton, not_or]
      exact ⟨ih (n / 16) (by omega), single _ (Nat.mod_lt n (by decide))⟩

theorem quoteCharForms (c : Char) : quoteChar c = [c] ∨ ∃ escape, quoteChar c = '\\' :: escape ∧ ' ' ∉ escape := by
  unfold quoteChar
  split
  · exact .inr ⟨['0'], rfl, by decide⟩
  split
  · exact .inr ⟨['t'], rfl, by decide⟩
  split
  · exact .inr ⟨['r'], rfl, by decide⟩
  split
  · exact .inr ⟨['n'], rfl, by decide⟩
  split
  · next sign =>
    refine .inr ⟨[c], rfl, ?_⟩
    simp only [Bool.or_eq_true, decide_eq_true_eq] at sign
    rcases sign with rfl | rfl <;> decide
  split
  · refine .inr ⟨_, List.cons_append .., ?_⟩
    simpa using hexSilent c.toNat
  · exact .inl rfl

theorem shapedOfPrinted {c : Char} (least : 0x20 ≤ c.toNat) (greatest : c.toNat < 0x7f) : isShapeless c = false := by
  have apart : shapelessRanges.toList.all (fun range => range.2 < 0x20 || 0x7f ≤ range.1) = true := by decide +kernel
  rw [isShapeless, ← Array.any_toList, List.any_eq_false]
  intro range member
  have outside := List.all_eq_true.mp apart range member
  simp only [Bool.or_eq_true, decide_eq_true_eq, Bool.and_eq_true] at outside ⊢
  omega

theorem quotePlaceWords : placeWords.flatMap quoteChar = placeWords := by
  have letters : placeWords.all (fun c => 0x20 ≤ c.toNat && c.toNat < 0x7f && c != '"' && c != '\\') = true := by
    rw [placeWordsEq]
    rfl
  have each (c : Char) (own : c ∈ placeWords) : quoteChar c = [c] := by
    have letter := List.all_eq_true.mp letters c own
    simp only [Bool.and_eq_true, decide_eq_true_eq, bne_iff_ne] at letter
    obtain ⟨⟨⟨least, greatest⟩, quote⟩, backslash⟩ := letter
    have control : c ≠ '\x00' ∧ c ≠ '\t' ∧ c ≠ '\r' ∧ c ≠ '\n' := by
      refine ⟨?_, ?_, ?_, ?_⟩ <;> rintro rfl <;> exact absurd least (by decide)
    simp [quoteChar, control, quote, backslash, shapedOfPrinted least greatest]
  rw [List.flatMap_congr each, List.flatMap_singleton']

theorem prefixOfQuoted {part cs : List Char} (plain : '\\' ∉ part) (ahead : part <+: cs.flatMap quoteChar) : part <+: cs := by
  induction cs generalizing part with
  | nil => exact ahead
  | cons c r ih =>
    cases part with
    | nil => exact List.nil_prefix
    | cons p part =>
      rw [List.mem_cons, not_or] at plain
      rw [List.flatMap_cons] at ahead
      rcases quoteCharForms c with same | ⟨escape, same, -⟩ <;> rw [same, List.cons_append] at ahead
      · obtain ⟨first, later⟩ := List.cons_prefix_cons.mp ahead
        exact List.cons_prefix_cons.mpr ⟨first, ih plain.2 later⟩
      · exact absurd (List.cons_prefix_cons.mp ahead).1.symm plain.1

theorem placeOfQuoted (cs : List Char) : placeWords <:+: cs.flatMap quoteChar ↔ placeWords <:+: cs := by
  have blank : placeWords = ' ' :: ['a', 't', ' ', 'l', 'i', 'n', 'e', ' '] := placeWordsEq
  constructor
  · intro inside
    induction cs with
    | nil => exact inside
    | cons c r ih =>
      rw [List.flatMap_cons] at inside
      rcases quoteCharForms c with same | ⟨escape, same, missing⟩ <;> rw [same, List.cons_append] at inside
      · rcases List.infix_cons_iff.mp inside with ahead | later
        · have whole : placeWords <+: (c :: r).flatMap quoteChar := by rwa [List.flatMap_cons, same]
          exact (prefixOfQuoted (by rw [placeWordsEq]; decide) whole).isInfix
        · exact (ih later).trans (List.suffix_cons c r).isInfix
      · have behind : placeWords <:+: r.flatMap quoteChar := by
          rw [blank] at inside ⊢
          have absent : ' ' ∉ '\\' :: escape := by simpa using missing
          exact (infixBehind absent _).mp inside
        exact (ih behind).trans (List.suffix_cons c r).isInfix
  · rintro ⟨front, back, rfl⟩
    rw [List.flatMap_append, List.flatMap_append, quotePlaceWords]
    exact ⟨_, _, rfl⟩

theorem silentSentence {front a b c d : List Char}
    (absent : occursIn [' ', 'a', 't', ' ', 'l', 'i', 'n', 'e', ' '] (front ++ (a ++ b ++ c ++ d)) = false) :
    ¬ placeWords <:+: front ++ (String.ofList a ++ String.ofList b ++ String.ofList c ++ String.ofList d).toList := by
  simp only [String.toList_append, String.toList_ofList]
  exact silentOf absent

theorem quotingSentence {front a b c d : List Char} (s : String)
    (before : occursIn [' ', 'a', 't', ' ', 'l', 'i', 'n', 'e', ' '] (front ++ (a ++ b)) = false)
    (behind : occursIn [' ', 'a', 't', ' ', 'l', 'i', 'n', 'e', ' '] (c ++ d) = false) :
    placeWords <:+: front ++ (String.ofList a ++ (String.ofList b ++ quoted s) ++ String.ofList c ++ String.ofList d).toList
      ↔ placeWords <:+: s.toList := by
  have quote : '"' ∉ placeWords := separatorOf (by decide)
  have parts : front ++ (String.ofList a ++ (String.ofList b ++ quoted s) ++ String.ofList c ++ String.ofList d).toList
      = (front ++ (a ++ b)) ++ '"' :: (s.toList.flatMap quoteChar ++ '"' :: (c ++ d)) := by
    simp [quoted]
  rw [parts, infixSeparated quote, infixSeparated quote, or_iff_right (silentOf before), or_iff_left (silentOf behind),
    placeOfQuoted]

theorem placeOfCause {cause : Misfit} (known : IsCause cause) {front : List Char} (blank : front = [] ∨ front = [' ']) :
    placeWords <:+: front ++ (cause.message Misreading.wording).toList ↔ ∃ text ∈ cause.quoted, placeWords <:+: text := by
  cases known with
  | tagged =>
    refine iff_of_false ?_ (by simp [Misfit.quoted])
    rcases blank with rfl | rfl <;> exact silentSentence (by decide)
  | scalar s named =>
    simp only [Misfit.quoted, List.mem_singleton, exists_eq_left]
    simp only [List.mem_cons, List.not_mem_nil, or_false] at named
    rcases blank with rfl | rfl <;> rcases named with rfl | rfl | rfl | rfl <;>
      exact quotingSentence s (by decide) (by decide)
  | huge =>
    have silent : ¬ placeWords <:+: front ++ (Misfit.hugeNumber.message Misreading.wording).toList ++ [] := by
      rcases blank with rfl | rfl <;> exact silentSpelled (by decide)
    rw [List.append_nil] at silent
    exact iff_of_false silent (by simp [Misfit.quoted])
  | key kind named =>
    simp only [List.mem_cons, List.not_mem_nil, or_false] at named kind
    rcases blank with rfl | rfl <;> rcases named with rfl | rfl <;> rcases kind with rfl | rfl | rfl <;>
      exact iff_of_false (silentSentence (by decide)) (by simp [Misfit.quoted])

namespace Misreading

def words (cause : Misfit) (path : Path) : List Char :=
  ((if path.text = "." then "" else path.text ++ ": ") ++ cause.message wording).toList

theorem toListMisfit (cause : Misfit) (place : Place) (path : Path) :
    (misfit cause place path).message.toList = words cause path ++ (placeText place.mark).toList :=
  String.toList_append

theorem placeOfWords {cause : Misfit} (known : IsCause cause) (path : Path) :
    placeWords <:+: words cause path ↔ ∃ text ∈ path.keys ++ cause.quoted, placeWords <:+: text := by
  simp only [List.mem_append, or_and_right, exists_or, ← placeOfPath]
  rw [words, String.toList_append]
  by_cases root : path.text = "."
  · have silent : ¬ placeWords <:+: path.text.toList := by
      rw [root, String.toList_ofList]
      exact silentOf (by decide)
    rw [if_pos root, or_iff_right silent]
    exact placeOfCause known (.inl rfl)
  · have colon : ": ".toList = [':', ' '] := String.toList_ofList
    rw [if_neg root, String.toList_append, colon, List.append_assoc, List.cons_append,
      infixSeparated (separatorOf (by decide)), placeOfCause known (.inr rfl)]

/-- The last place of the message, which the mark gives as well, is not the only one: a fault tells where it is and
where the construct began, or the document has the words of a place itself. -/
def LeavesPlace : Misreading → Prop
  | .malformed f => f.place.mark ≠ Mark.origin ∧ ∃ construct began, f.context = some (construct, began)
      ∧ began.mark ≠ Mark.origin ∧ began.mark ≠ f.place.mark
  | .misfit cause place path =>
    if place.mark = Mark.origin then
      ∃ front between back, words cause path = front ++ (placeWords ++ (between ++ (placeWords ++ back)))
    else ∃ text ∈ path.keys ++ cause.quoted, placeWords <:+: text
  | .unknownAnchor _ | .tooDeep _ | .tooManyAliases | .endOfStream | .moreDocuments => False

theorem placeOfReason {e : Misreading} (refusal : e.IsRefusal) : placeWords <:+: cutPlace e.message.toList ↔ e.LeavesPlace := by
  have placed {s : String} (silent : ¬ placeWords <:+: s.toList) (place : Mark) :
      ¬ placeWords <:+: cutPlace (s ++ placeText place).toList := by
    rw [String.toList_append]
    by_cases start : place = Mark.origin
    · rw [start, placeTextOrigin, String.toList_empty, List.append_nil, cutOfSilent silent]
      exact silent
    · rwa [cutAtPlace _ start]
  have plain {s : String} (silent : ¬ placeWords <:+: s.toList) : ¬ placeWords <:+: cutPlace s.toList := by
    rwa [cutOfSilent silent]
  cases e with
  | malformed f => exact placeOfFault f
  | misfit cause place path =>
    rw [toListMisfit, LeavesPlace]
    by_cases start : place.mark = Mark.origin
    · rw [if_pos start, start, placeTextOrigin, String.toList_empty, List.append_nil, cutTwice]
    · rw [if_neg start, cutAtPlace _ start, placeOfWords refusal]
  | unknownAnchor place | tooDeep place => exact iff_of_false (placed (silentAlone (by decide)) place.mark) id
  | tooManyAliases | endOfStream | moreDocuments => exact iff_of_false (plain (silentAlone (by decide))) id

end Misreading

end Yaml
end ConstraintDesk
