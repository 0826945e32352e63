import ConstraintDesk.Machine.Files
import ConstraintDesk.Proofs.Decode.Record
import ConstraintDesk.Proofs.Text.Lines

/-! What becomes of the files. A change at a place changes nothing elsewhere, and it is made exactly if the place is
in a folder that is there. Making folders along a path takes nothing away, and the path leads to a folder then; what
is removed is the folder with all that stands in it. -/
namespace ConstraintDesk.Machine.Files

variable {fs new : Files} {p q source target : Place} {e : Entry}

theorem entryOfRoot (fs : Files) : fs.entry? [] = some .folder := rfl

theorem entriesAlike (same : ∀ e, (q, e) ∈ new.entries ↔ (q, e) ∈ fs.entries) : new.entry? q = fs.entry? q := by
  by_cases root : q = []
  · rw [root, entryOfRoot, entryOfRoot]
  · exact Option.ext fun e => by rw [entryIff root, entryIff root, same]

theorem innerOfFree (free : fs.entry? p = none) : p ≠ [] := by
  rintro rfl
  cases free

theorem innerOfFile {old : Bytes} (found : fs.entry? p = some (.file old)) : p ≠ [] := by
  rintro rfl
  cases found

theorem entryOfAdd (free : fs.entry? p = none) (around : fs.entry? p.dropLast = some .folder) (q : Place) :
    entry? (fs.add e free around) q = if q = p then some e else fs.entry? q := by
  split
  · next same =>
    subst same
    exact (entryIff (innerOfFree free)).mpr (List.mem_append_right _ List.mem_cons_self)
  · next other => exact entriesAlike fun e => by simp [add, other]

theorem entryOfRefill {old : Bytes} (found : fs.entry? p = some (.file old)) (content : Bytes) (q : Place) :
    entry? (fs.refill found content) q = if q = p then some (.file content) else fs.entry? q := by
  split
  · next same =>
    subst same
    have inner := innerOfFile found
    exact (entryIff inner).mpr (List.mem_map.mpr ⟨_, (entryIff inner).mp found, if_pos rfl⟩)
  · next other =>
    refine entriesAlike fun e => ⟨fun member => ?_, fun member => List.mem_map.mpr ⟨_, member, if_neg other⟩⟩
    obtain ⟨x, listed, here⟩ := List.mem_map.mp member
    have place := placeOfRefilled p content x
    rw [here] at place
    have kept : refilled p content x = x := if_neg (place ▸ other)
    rwa [← here, kept]

theorem entryOfRemove (fs : Files) (p : Place) (inner : q ≠ []) :
    entry? (fs.remove p) q = if p <+: q then none else fs.entry? q := by
  split
  · next under =>
    refine Option.eq_none_iff_forall_ne_some.mpr fun e there => ?_
    have kept := (List.mem_filter.mp ((entryIff inner).mp there)).2
    simp [List.isPrefixOf_iff_prefix.mpr under] at kept
  · next beside =>
    refine entriesAlike fun e => ⟨fun member => (List.mem_filter.mp member).1, fun member => ?_⟩
    refine List.mem_filter.mpr ⟨member, ?_⟩
    simpa [← Bool.not_eq_true, List.isPrefixOf_iff_prefix] using beside

section Moving

variable (outside : ¬ source <+: target) (apart : ¬ target <+: source)
  (around : fs.entry? target.dropLast = some .folder)

theorem movedIff : (q, e) ∈ (fs.move outside around).entries
    ↔ ∃ r, (r, e) ∈ fs.entries ∧ ¬ target <+: r ∧ renamed source target r = q := by
  simp only [move, List.mem_map, List.mem_filter, unplacedIff, Prod.mk.injEq, Prod.exists]
  constructor
  · rintro ⟨r, _, ⟨listed, kept⟩, same, rfl⟩
    exact ⟨r, listed, kept, same⟩
  · rintro ⟨r, listed, kept, same⟩
    exact ⟨r, e, ⟨listed, kept⟩, same, rfl⟩

include outside apart in
theorem besideEach {p : Place} (under : source <+: p) : ¬ target <+: p := fun there =>
  (List.prefix_or_prefix_of_prefix under there).elim outside apart

include apart in
theorem entryOfMoved (rest : Place) :
    entry? (fs.move outside around) (target ++ rest) = fs.entry? (source ++ rest) := by
  have inner {p r : Place} (other : ¬ p <+: r) (rest : Place) : p ++ rest ≠ [] := by
    intro empty
    rw [(List.append_eq_nil_iff.mp empty).1] at other
    exact other List.nil_prefix
  refine Option.ext fun e => ?_
  rw [entryIff (inner apart rest), entryIff (inner outside rest), movedIff]
  constructor
  · rintro ⟨r, listed, kept, same⟩
    by_cases under : source <+: r
    · obtain ⟨others, rfl⟩ := under
      rw [renamedUnder] at same
      rwa [← List.append_cancel_left same]
    · rw [renamedBeside under] at same
      exact absurd ⟨rest, same.symm⟩ kept
  · intro listed
    exact ⟨_, listed, besideEach outside apart (List.prefix_append source rest), renamedUnder rest⟩

include apart in
theorem entryOfLeft (under : source <+: q) : entry? (fs.move outside around) q = none := by
  have inner : q ≠ [] := by
    rintro rfl
    rw [List.prefix_nil.mp under] at outside
    exact outside List.nil_prefix
  refine Option.eq_none_iff_forall_ne_some.mpr fun e there => ?_
  obtain ⟨r, -, -, same⟩ := (movedIff outside around).mp ((entryIff inner).mp there)
  by_cases own : source <+: r
  · obtain ⟨others, rfl⟩ := own
    rw [renamedUnder] at same
    exact besideEach outside apart under ⟨others, same⟩
  · rw [renamedBeside own] at same
    exact own (same ▸ under)

theorem entryOfUnmoved (under : ¬ source <+: q) (free : ¬ target <+: q) :
    entry? (fs.move outside around) q = fs.entry? q := by
  refine entriesAlike fun e => (movedIff outside around).trans ⟨?_, fun listed => ⟨q, listed, free, renamedBeside under⟩⟩
  rintro ⟨r, listed, kept, same⟩
  by_cases own : source <+: r
  · obtain ⟨others, rfl⟩ := own
    rw [renamedUnder] at same
    exact absurd ⟨others, same⟩ free
  · rw [renamedBeside own] at same
    rwa [← same]

end Moving

theorem folderAround (there : fs.entry? p = some e) : fs.entry? p.dropLast = some .folder := by
  by_cases root : p = []
  · rw [root]
    rfl
  · obtain ⟨-, above⟩ := fs.isTree.held _ ((entryIff root).mp there)
    rcases above with top | listed
    · rw [top]
      rfl
    · exact entryOfMem listed

theorem foldersAbove {rest : Place} (there : fs.entry? (p ++ rest) = some e) (below : rest ≠ []) :
    fs.entry? p = some .folder := by
  induction rest using List.reverseRecOn generalizing e with
  | nil => exact absurd rfl below
  | append_singleton front name ih =>
    have above := folderAround there
    rw [← List.append_assoc, List.dropLast_concat] at above
    by_cases next : front = []
    · rwa [next, List.append_nil] at above
    · exact ih above next

theorem withinOk {change : fs.entry? p.dropLast = some .folder → Files} :
    fs.within p change = .ok new ↔ ∃ around, change around = new := by
  unfold within
  split
  · next around => simp [around]
  · next around => simp [around]
  · next other around =>
    refine iff_of_false (fun done => by cases done) ?_
    rintro ⟨folder, -⟩
    exact other (Option.some.inj (around.symm.trans folder))

def afterWrite (content : Bytes) (behind : Bool) : Option Entry → Entry
  | some (.file old) => .file (if behind then old ++ content else content)
  | some other => other
  | none => .file content

theorem entryOfWrite {content : Bytes} {behind : Bool} (done : fs.write p content behind = .ok new) (q : Place) :
    new.entry? q = if q = p then some (afterWrite content behind (fs.entry? p)) else fs.entry? q := by
  unfold write at done
  split at done
  · cases done
  · next found =>
    cases done
    rw [found]
    split
    · next same => rw [same, found]; rfl
    · rfl
  · next found =>
    cases done
    rw [entryOfRefill, found]
    rfl
  · next free =>
    obtain ⟨around, rfl⟩ := withinOk.mp done
    rw [entryOfAdd, free]
    rfl

theorem writeIff {content : Bytes} {behind : Bool} : (∃ new, fs.write p content behind = .ok new)
    ↔ fs.entry? p ≠ some .folder ∧ fs.entry? p.dropLast = some .folder := by
  unfold write
  split
  · next found => simp [found]
  · next found => simp [found, folderAround found]
  · next found => simp [found, folderAround found]
  · next free => simp [free, withinOk]

theorem fileOfWrite {content : Bytes} (done : fs.write p content false = .ok new)
    (bare : ∀ cycle, fs.entry? p ≠ some (.device cycle)) : new.entry? p = some (.file content) := by
  rw [entryOfWrite done, if_pos rfl]
  cases found : fs.entry? p with
  | none => rfl
  | some e =>
    cases e with
    | folder => exact absurd found (writeIff.mp ⟨new, done⟩).1
    | file old => rfl
    | device cycle => exact absurd found (bare cycle)

theorem makeFolderOk : fs.makeFolder p = .ok new
    ↔ ∃ free around, fs.add .folder (p := p) free around = new := by
  unfold makeFolder
  split
  · next found => simp [found]
  · next free => simp [free, withinOk]

structure Grows (fs new : Files) : Prop where
  keeps {q : Place} {e : Entry} : fs.entry? q = some e → new.entry? q = some e
  adds {q : Place} {e : Entry} : new.entry? q = some e → fs.entry? q = some e ∨ e = .folder

namespace Grows

variable {mid : Files}

theorem refl (fs : Files) : Grows fs fs := ⟨id, .inl⟩

theorem trans (first : Grows fs mid) (second : Grows mid new) : Grows fs new where
  keeps there := second.keeps (first.keeps there)
  adds there := (second.adds there).elim first.adds .inr

theorem ofMakeFolder (done : fs.makeFolder p = .ok new) : Grows fs new ∧ new.entry? p = some .folder := by
  obtain ⟨free, around, rfl⟩ := makeFolderOk.mp done
  refine ⟨⟨fun {q e} there => ?_, fun {q e} there => ?_⟩, by rw [entryOfAdd, if_pos rfl]⟩
  · rw [entryOfAdd, if_neg, there]
    rintro rfl
    rw [free] at there
    cases there
  · rw [entryOfAdd] at there
    split at there
    · exact .inr (Option.some.inj there).symm
    · exact .inl there

end Grows

theorem stepOk {name : Bytes} :
    fs.step p name = .ok q ↔ fs.entry? p = some .folder ∧ beyond p name = .ok q := by
  unfold step
  split
  · next missing => simp [missing]
  · next folder => simp [folder]
  · next other found =>
    refine iff_of_false (fun done => by cases done) ?_
    rintro ⟨folder, -⟩
    exact other (Option.some.inj (found.symm.trans folder))

theorem trailCons {name : Bytes} {names : List Bytes} : fs.trail p (name :: names) = .ok target
    ↔ ∃ q, fs.step p name = .ok q ∧ fs.trail q names = .ok target := by
  unfold trail
  rw [List.foldlM_cons]
  refine ⟨okOfBind, ?_⟩
  rintro ⟨q, first, behind⟩
  rw [first]
  exact behind

theorem trailConcat {name : Bytes} {names : List Bytes} : fs.trail p (names ++ [name]) = .ok target
    ↔ ∃ q, fs.trail p names = .ok q ∧ fs.step q name = .ok target := by
  induction names generalizing p with
  | nil =>
    rw [List.nil_append, trailCons]
    exact ⟨fun ⟨q, first, here⟩ => ⟨p, rfl, first.trans here⟩, fun ⟨q, here, first⟩ => by cases here; exact ⟨_, first, rfl⟩⟩
  | cons n names ih =>
    simp only [List.cons_append, trailCons, ih]
    constructor
    · rintro ⟨a, first, q, behind, last⟩
      exact ⟨q, ⟨a, first, behind⟩, last⟩
    · rintro ⟨q, ⟨a, first, behind⟩, last⟩
      exact ⟨a, first, q, behind, last⟩

theorem Grows.trail (grows : Grows fs new) {names : List Bytes} (leads : fs.trail p names = .ok target) :
    new.trail p names = .ok target := by
  induction names generalizing p with
  | nil => exact leads
  | cons name names ih =>
    obtain ⟨q, first, behind⟩ := trailCons.mp leads
    obtain ⟨folder, next⟩ := stepOk.mp first
    exact trailCons.mpr ⟨q, stepOk.mpr ⟨grows.keeps folder, next⟩, ih behind⟩

/-- Where a path leads does not depend on the files, as long as it leads anywhere. -/
theorem trailUnique {names : List Bytes} {r : Place} (one : fs.trail p names = .ok q)
    (other : new.trail p names = .ok r) : q = r := by
  induction names generalizing p with
  | nil => exact Except.ok.inj (one.symm.trans other)
  | cons name names ih =>
    obtain ⟨a, first, behind⟩ := trailCons.mp one
    obtain ⟨b, second, after⟩ := trailCons.mp other
    obtain rfl := Except.ok.inj ((stepOk.mp first).2.symm.trans (stepOk.mp second).2)
    exact ih behind after

theorem enterOk {name : Bytes} (done : enter (fs, p) name = .ok (new, q)) :
    Grows fs new ∧ fs.step p name = .ok q := by
  obtain ⟨r, first, rest⟩ := okOfBind done
  split at rest
  · cases rest
    exact ⟨.refl _, first⟩
  · obtain ⟨made, done, same⟩ := okOfBind rest
    cases same
    exact ⟨(Grows.ofMakeFolder done).1, first⟩

theorem entersOk {names : List Bytes} (done : names.foldlM enter (fs, p) = .ok (new, target)) :
    Grows fs new ∧ new.trail p names = .ok target := by
  induction names generalizing fs p with
  | nil =>
    cases done
    exact ⟨.refl _, rfl⟩
  | cons name names ih =>
    rw [List.foldlM_cons] at done
    obtain ⟨⟨mid, q⟩, first, behind⟩ := okOfBind done
    obtain ⟨grows, stepped⟩ := enterOk first
    obtain ⟨more, leads⟩ := ih behind
    obtain ⟨folder, next⟩ := stepOk.mp stepped
    have all := grows.trans more
    exact ⟨all, trailCons.mpr ⟨q, stepOk.mpr ⟨all.keeps folder, next⟩, leads⟩⟩

theorem entersExisting {names : List Bytes} (leads : fs.trail p names = .ok target)
    (there : (fs.entry? target).isSome) : names.foldlM enter (fs, p) = .ok (fs, target) := by
  induction names generalizing p with
  | nil =>
    cases leads
    rfl
  | cons name names ih =>
    obtain ⟨q, first, behind⟩ := trailCons.mp leads
    have present : (fs.entry? q).isSome := by
      cases names with
      | nil =>
        cases behind
        exact there
      | cons other names =>
        obtain ⟨r, second, -⟩ := trailCons.mp behind
        rw [(stepOk.mp second).1]
        rfl
    have entered : enter (fs, p) name = .ok (fs, q) := by
      rw [enter, first]
      exact if_pos present
    rw [List.foldlM_cons, entered]
    exact ih behind

structure IsFileName (b : Bytes) : Prop where
  filled : b ≠ []
  unslashed : '/' ∉ b
  onward : b ≠ ['.']
  upward : b ≠ ['.', '.']
  short : b.length ≤ nameLimit

theorem IsFileName.parts {b : Bytes} (name : IsFileName b) : parts b = [b] := by
  rw [Files.parts, Text.splitOnUnbroken name.unslashed]
  simp [name.filled]

theorem IsFileName.beyond {b : Bytes} (name : IsFileName b) (p : Place) : beyond p b = .ok (p ++ [b]) := by
  rw [Files.beyond, if_neg name.onward, if_neg name.upward, if_neg (Nat.not_lt.mpr name.short)]

theorem partsBetween (front back : Bytes) : parts (front ++ '/' :: back) = parts front ++ parts back := by
  unfold parts
  rw [Text.splitOnBetween, List.filter_append]

variable {start : Place} {path : Bytes}

theorem trailOfLocate (leads : fs.locate start path = .ok p) :
    fs.trail (origin start path) (parts path) = .ok p := by
  unfold locate at leads
  split at leads
  · cases leads
  obtain ⟨q, found, rest⟩ := okOfBind leads
  split at rest
  · cases rest
  · cases rest
    exact found

theorem locateOfTrail (filled : path ≠ []) (unslashed : path.getLast? ≠ some '/')
    (leads : fs.trail (origin start path) (parts path) = .ok p) : fs.locate start path = .ok p := by
  unfold locate
  rw [if_neg filled, leads]
  exact if_neg (by simp [unslashed])

theorem makeFoldersOk (done : fs.makeFolders start path = .ok new) : Grows fs new
    ∧ ∃ p, new.trail (origin start path) (parts path) = .ok p ∧ new.isFolder p := by
  obtain ⟨⟨mid, p⟩, entered, rest⟩ := okOfBind done
  dsimp only at rest
  split at rest
  · next folder =>
    cases rest
    obtain ⟨grows, leads⟩ := entersOk entered
    exact ⟨grows, p, leads, folder⟩
  · cases rest

theorem makeFoldersOfFolder (folder : fs.isFolder p)
    (leads : fs.trail (origin start path) (parts path) = .ok p) :
    fs.makeFolders start path = .ok fs := by
  have there : (fs.entry? p).isSome := by
    rw [of_decide_eq_true folder]
    rfl
  unfold makeFolders
  rw [entersExisting leads there]
  exact if_pos folder

end ConstraintDesk.Machine.Files
