import ConstraintDesk.Machine.Bytes
import ConstraintDesk.Machine.Ending
/-! The files of the machine. A place is the list of names from the root. Everything but the root is listed
once, with its place, and stands in a folder; whatever changes the files keeps them so. -/
namespace ConstraintDesk.Machine

abbrev Place := List Bytes

inductive Entry where
  | folder
  | file (content : Bytes)
  -- Takes everything, and gives the same bytes again and again.
  | device (cycle : Bytes)
  deriving DecidableEq

structure IsTree (entries : List (Place × Entry)) : Prop where
  once : entries.Pairwise fun x y => x.1 ≠ y.1
  held : ∀ x ∈ entries, x.1 ≠ [] ∧ (x.1.dropLast = [] ∨ (x.1.dropLast, .folder) ∈ entries)

instance (entries : List (Place × Entry)) : Decidable (IsTree entries) :=
  decidable_of_iff (entries.Pairwise (fun x y => x.1 ≠ y.1)
      ∧ ∀ x ∈ entries, x.1 ≠ [] ∧ (x.1.dropLast = [] ∨ (x.1.dropLast, .folder) ∈ entries))
    ⟨fun ⟨once, held⟩ => ⟨once, held⟩, fun ⟨once, held⟩ => ⟨once, held⟩⟩

structure Files where
  entries : List (Place × Entry)
  isTree : IsTree entries

theorem memOfLookup {entries : List (Place × Entry)} {p : Place} {e : Entry} (found : entries.lookup p = some e) :
    (p, e) ∈ entries := by
  obtain ⟨front, back, rfl, -⟩ := List.lookup_eq_some_iff.mp found
  simp

theorem lookupOfMem {entries : List (Place × Entry)} {p : Place} {e : Entry}
    (once : entries.Pairwise fun x y => x.1 ≠ y.1) (member : (p, e) ∈ entries) : entries.lookup p = some e := by
  obtain ⟨front, back, rfl⟩ := List.append_of_mem member
  refine List.lookup_eq_some_iff.mpr ⟨front, back, rfl, fun x inFront => ?_⟩
  simpa using ((List.pairwise_append.mp once).2.2 x inFront (p, e) List.mem_cons_self).symm

theorem prefixOfDropLast {p q : Place} (part : p <+: q.dropLast) : p <+: q := part.trans (List.dropLast_prefix q)

theorem properFront {p : Place} (inner : p ≠ []) : ¬ p <+: p.dropLast := by
  intro part
  have shorter := part.length_le
  have positive := List.length_pos_iff.mpr inner
  rw [List.length_dropLast] at shorter
  omega

namespace Files

def entry? (fs : Files) (p : Place) : Option Entry :=
  if p = [] then some .folder else fs.entries.lookup p

def isFolder (fs : Files) (p : Place) : Bool := fs.entry? p = some .folder

def isFile (fs : Files) (p : Place) : Bool :=
  match fs.entry? p with
  | some (.file _) => true
  | _ => false

theorem entryIff {fs : Files} {p : Place} {e : Entry} (inner : p ≠ []) :
    fs.entry? p = some e ↔ (p, e) ∈ fs.entries := by
  unfold entry?
  rw [if_neg inner]
  exact ⟨memOfLookup, lookupOfMem fs.isTree.once⟩

theorem entryOfMem {fs : Files} {x : Place × Entry} (member : x ∈ fs.entries) : fs.entry? x.1 = some x.2 :=
  (entryIff (fs.isTree.held x member).1).mpr member

theorem folderListed {fs : Files} {p : Place} (folder : fs.entry? p = some .folder) :
    p = [] ∨ (p, .folder) ∈ fs.entries := by
  by_cases root : p = []
  · exact .inl root
  · exact .inr ((entryIff root).mp folder)

def names (fs : Files) (p : Place) : List Bytes :=
  (fs.entries.filterMap fun (q, _) =>
    if q.length = p.length + 1 && p.isPrefixOf q then q.getLast? else none).mergeSort Bytes.precedes

theorem treeOfAdd {fs : Files} {p : Place} (e : Entry) (free : fs.entry? p = none)
    (around : fs.entry? p.dropLast = some .folder) : IsTree (fs.entries ++ [(p, e)]) where
  once := by
    refine List.pairwise_append.mpr ⟨fs.isTree.once, List.pairwise_singleton _ _, fun x member y new same => ?_⟩
    obtain rfl := List.mem_singleton.mp new
    have there := entryOfMem member
    rw [same, free] at there
    cases there
  held x member := by
    rcases List.mem_append.mp member with old | new
    · obtain ⟨inner, above⟩ := fs.isTree.held x old
      exact ⟨inner, above.imp_right fun folder => List.mem_append_left _ folder⟩
    · obtain rfl := List.mem_singleton.mp new
      refine ⟨?_, (folderListed around).imp_right fun folder => List.mem_append_left _ folder⟩
      rintro rfl
      cases free

def add (fs : Files) {p : Place} (e : Entry) (free : fs.entry? p = none)
    (around : fs.entry? p.dropLast = some .folder) : Files := ⟨fs.entries ++ [(p, e)], treeOfAdd e free around⟩

def refilled (p : Place) (content : Bytes) (x : Place × Entry) : Place × Entry :=
  if x.1 = p then (p, .file content) else x

theorem placeOfRefilled (p : Place) (content : Bytes) (x : Place × Entry) : (refilled p content x).1 = x.1 := by
  unfold refilled
  split
  · next same => exact same.symm
  · rfl

theorem treeOfRefill {fs : Files} {p : Place} {old : Bytes} (content : Bytes)
    (found : fs.entry? p = some (.file old)) : IsTree (fs.entries.map (refilled p content)) where
  once := by
    refine List.pairwise_map.mpr (fs.isTree.once.imp fun apart => ?_)
    rwa [placeOfRefilled, placeOfRefilled]
  held x member := by
    obtain ⟨y, old, rfl⟩ := List.mem_map.mp member
    obtain ⟨inner, above⟩ := fs.isTree.held y old
    rw [placeOfRefilled]
    refine ⟨inner, above.imp_right fun folder => List.mem_map.mpr ⟨_, folder, if_neg ?_⟩⟩
    intro same
    have there := entryOfMem folder
    rw [same, found] at there
    cases there

def refill (fs : Files) {p : Place} {old : Bytes} (found : fs.entry? p = some (.file old)) (content : Bytes) : Files :=
  ⟨fs.entries.map (refilled p content), treeOfRefill content found⟩

theorem treeOfRemove (fs : Files) (p : Place) : IsTree (fs.entries.filter fun x => !p.isPrefixOf x.1) where
  once := fs.isTree.once.filter _
  held x member := by
    obtain ⟨old, kept⟩ := List.mem_filter.mp member
    obtain ⟨inner, above⟩ := fs.isTree.held x old
    refine ⟨inner, above.imp_right fun folder => List.mem_filter.mpr ⟨folder, ?_⟩⟩
    simp only [Bool.not_eq_true', ← Bool.not_eq_true, List.isPrefixOf_iff_prefix] at kept ⊢
    exact fun part => kept (prefixOfDropLast part)

def remove (fs : Files) (p : Place) : Files := ⟨_, fs.treeOfRemove p⟩

def renamed (source target q : Place) : Place :=
  if source.isPrefixOf q then target ++ q.drop source.length else q

section Renaming

variable {source target q r : Place}

theorem renamedUnder (rest : Place) : renamed source target (source ++ rest) = target ++ rest := by
  rw [renamed, if_pos (List.isPrefixOf_iff_prefix.mpr (List.prefix_append _ _)), List.drop_left]

theorem renamedBeside (beside : ¬ source <+: q) : renamed source target q = q :=
  if_neg fun part => beside (List.isPrefixOf_iff_prefix.mp part)

theorem renamedApart (free : ¬ target <+: q) (freeToo : ¬ target <+: r)
    (same : renamed source target q = renamed source target r) : q = r := by
  by_cases under : source <+: q <;> by_cases underToo : source <+: r
  · obtain ⟨rest, rfl⟩ := under
    obtain ⟨others, rfl⟩ := underToo
    rw [renamedUnder, renamedUnder] at same
    rw [List.append_cancel_left same]
  · obtain ⟨rest, rfl⟩ := under
    rw [renamedUnder, renamedBeside underToo] at same
    exact absurd ⟨rest, same⟩ freeToo
  · obtain ⟨others, rfl⟩ := underToo
    rw [renamedUnder, renamedBeside under] at same
    exact absurd ⟨others, same.symm⟩ free
  · rwa [renamedBeside under, renamedBeside underToo] at same

end Renaming

def unplaced (target : Place) (x : Place × Entry) : Bool := !target.isPrefixOf x.1

theorem unplacedIff {target : Place} {x : Place × Entry} : unplaced target x = true ↔ ¬ target <+: x.1 := by
  simp [unplaced, ← Bool.not_eq_true, List.isPrefixOf_iff_prefix]

theorem treeOfMove {fs : Files} {source target : Place} (outside : ¬ source <+: target)
    (around : fs.entry? target.dropLast = some .folder) :
    IsTree ((fs.entries.filter (unplaced target)).map fun x => (renamed source target x.1, x.2)) where
  once := by
    refine List.pairwise_map.mpr ((fs.isTree.once.filter _).imp_of_mem fun left right apart same => apart ?_)
    exact renamedApart (unplacedIff.mp (List.mem_filter.mp left).2) (unplacedIff.mp (List.mem_filter.mp right).2) same
  held x member := by
    obtain ⟨⟨q, e⟩, inside, rfl⟩ := List.mem_map.mp member
    obtain ⟨old, free⟩ := List.mem_filter.mp inside
    rw [unplacedIff] at free
    obtain ⟨inner, above⟩ := fs.isTree.held _ old
    -- Wherever a folder stood that is not replaced, there is one at its new place.
    have moved {p : Place} (folder : p = [] ∨ (p, .folder) ∈ fs.entries) (kept : ¬ target <+: p) :
        renamed source target p = [] ∨ (renamed source target p, Entry.folder)
          ∈ (fs.entries.filter (unplaced target)).map fun x => (renamed source target x.1, x.2) := by
      rcases folder with rfl | listed
      · refine .inl (renamedBeside fun part => ?_)
        rw [List.prefix_nil.mp part] at outside
        exact outside List.nil_prefix
      · exact .inr (List.mem_map.mpr ⟨_, List.mem_filter.mpr ⟨listed, unplacedIff.mpr kept⟩, rfl⟩)
    by_cases under : source <+: q
    · obtain ⟨rest, rfl⟩ := under
      rw [renamedUnder]
      have inTarget : target ++ rest ≠ [] := by
        intro nothing
        rw [(List.append_eq_nil_iff.mp nothing).1] at free
        exact free List.nil_prefix
      refine ⟨inTarget, ?_⟩
      by_cases itself : rest = []
      · subst itself
        rw [List.append_nil] at inTarget ⊢
        have same : renamed source target target.dropLast = target.dropLast :=
          renamedBeside fun part => outside (prefixOfDropLast part)
        rw [← same]
        exact moved (folderListed around) fun part => properFront inTarget part
      · rw [List.dropLast_append_of_ne_nil itself] at above ⊢
        rw [← @renamedUnder source target]
        exact moved above fun part => free (part.trans (List.prefix_append_right_inj source |>.mpr (List.dropLast_prefix rest)))
    · rw [renamedBeside under]
      have same : renamed source target q.dropLast = q.dropLast :=
        renamedBeside fun part => under (prefixOfDropLast part)
      rw [← same]
      exact ⟨inner, moved above fun part => free (prefixOfDropLast part)⟩

def move (fs : Files) {source target : Place} (outside : ¬ source <+: target)
    (around : fs.entry? target.dropLast = some .folder) : Files := ⟨_, treeOfMove outside around⟩

def nameLimit : Nat := 255

def isAbsolute (path : Bytes) : Bool := path.head? = some '/'

def beyond (p : Place) (name : Bytes) : Except Refusal Place :=
  if name = ['.'] then .ok p
  else if name = ['.', '.'] then .ok p.dropLast
  else if nameLimit < name.length then .error .nameTooLong
  else .ok (p ++ [name])

def step (fs : Files) (p : Place) (name : Bytes) : Except Refusal Place :=
  match fs.entry? p with
  | none => .error .noEntry
  | some .folder => beyond p name
  | some _ => .error .notFolder

def parts (path : Bytes) : List Bytes := (Text.splitOn '/' path).filter fun name => !name.isEmpty

def origin (start : Place) (path : Bytes) : Place := if isAbsolute path then [] else start

def trail (fs : Files) (p : Place) (names : List Bytes) : Except Refusal Place := names.foldlM fs.step p

def locate (fs : Files) (start : Place) (path : Bytes) : Except Refusal Place :=
  if path = [] then .error .noEntry
  else do
    let p ← fs.trail (origin start path) (parts path)
    if path.getLast? = some '/' && (fs.entry? p).isSome && !fs.isFolder p then .error .notFolder else .ok p

def read (fs : Files) (p : Place) : Except Refusal Bytes :=
  match fs.entry? p with
  | none => .error .noEntry
  | some .folder => .error .isFolder
  | some (.file content) => .ok content
  | some (.device _) => .ok []

def within (fs : Files) (p : Place) (change : fs.entry? p.dropLast = some .folder → Files) : Except Refusal Files :=
  match around : fs.entry? p.dropLast with
  | none => .error .noEntry
  | some .folder => .ok (change around)
  | some _ => .error .notFolder

def write (fs : Files) (p : Place) (content : Bytes) (behind : Bool) : Except Refusal Files :=
  match found : fs.entry? p with
  | some .folder => .error .isFolder
  | some (.device _) => .ok fs
  | some (.file old) => .ok (fs.refill found (if behind then old ++ content else content))
  | none => fs.within p fun around => fs.add (.file content) found around

def makeFolder (fs : Files) (p : Place) : Except Refusal Files :=
  match free : fs.entry? p with
  | some _ => .error .taken
  | none => fs.within p fun around => fs.add .folder free around

def enter : Files × Place → Bytes → Except Refusal (Files × Place)
  | (fs, p), name => do
    let q ← fs.step p name
    if (fs.entry? q).isSome then return (fs, q)
    return (← fs.makeFolder q, q)

def makeFolders (fs : Files) (start : Place) (path : Bytes) : Except Refusal Files := do
  let (fs, p) ← (parts path).foldlM enter (fs, origin start path)
  if fs.isFolder p then return fs else throw .taken

def pathOf (p : Place) : Bytes := if p = [] then ['/'] else p.flatMap ('/' :: ·)

end Files
end ConstraintDesk.Machine
