import ConstraintDesk.Proofs.Machine.Files
import ConstraintDesk.Proofs.Reasoner.Runs
import ConstraintDesk.Shell.Host

/-! The machine as a host cleans up behind a run. A program is started where its document is. The folder of the run
is not there when the run is over, whatever the program did. Beside it, what was there stays, and what is new is a
folder that was made on the way to it, unless the program itself changed something. -/
namespace ConstraintDesk.Shell

open Machine (Bytes Files Place Refusal World)
open Machine.Files (Grows IsFileName origin parts)
open Reasoner (Course documentName inside launched)

section Paths

theorem bytesOfAppend (a b : String) : Bytes.ofString (a ++ b) = Bytes.ofString a ++ Bytes.ofString b := by
  simp [Bytes.ofString, Bytes.ofText, Bytes.ofList, Utf8.encode]

theorem bytesEmpty {a : String} : Bytes.ofString a = [] ↔ a = "" := by
  refine ⟨fun empty => ?_, fun empty => by rw [empty]; rfl⟩
  simp only [Bytes.ofString, Bytes.ofText, Bytes.ofList, Utf8.encode, List.map_eq_nil_iff,
    List.flatMap_eq_nil_iff] at empty
  refine String.toList_eq_nil_iff.mp (List.eq_nil_iff_forall_not_mem.mpr fun c member => ?_)
  exact String.utf8EncodeChar_ne_nil (empty c member)

theorem runNameIsFileName : IsFileName (Bytes.ofString runName) := by
  constructor <;> decide +kernel

theorem documentNameIsFileName : IsFileName (Bytes.ofString documentName) := by
  constructor <;> decide +kernel

inductive Joins (name : Bytes) : (folder whole : Bytes) → Prop
  | bare : Joins name [] name
  | slashed (front : Bytes) : Joins name (front ++ ['/']) (front ++ '/' :: name)
  | plain {folder : Bytes} (filled : folder ≠ []) : Joins name folder (folder ++ '/' :: name)

theorem joinsInside (folder name : String) :
    Joins (Bytes.ofString name) (Bytes.ofString folder) (Bytes.ofString (inside folder name)) := by
  unfold inside
  split
  · next slashed =>
    cases last : folder.toList.getLast? with
    | none =>
      obtain rfl : folder = "" := by simpa using last
      rw [String.empty_append]
      exact .bare
    | some c =>
      obtain rfl : c = '/' := by simpa [last] using slashed
      obtain ⟨front, whole⟩ := List.getLast?_eq_some_iff.mp last
      obtain rfl : folder = String.ofList front ++ "/" := String.toList_inj.mp (by simpa using whole)
      rw [bytesOfAppend, bytesOfAppend, bytesOfAppend, List.append_assoc]
      exact .slashed _
  · next unslashed =>
    rw [bytesOfAppend, bytesOfAppend, List.append_assoc]
    refine .plain fun empty => unslashed ?_
    rw [bytesEmpty.mp empty]
    rfl

variable {name folder whole : Bytes}

theorem Joins.parts (joins : Joins name folder whole) : parts whole = parts folder ++ parts name := by
  cases joins with
  | bare => rfl
  | slashed front =>
    rw [Files.partsBetween, Files.partsBetween]
    simp [Files.parts, Text.splitOn]
  | plain filled => exact Files.partsBetween _ _

theorem Joins.origin (joins : Joins name folder whole) (named : IsFileName name) (start : Place) :
    origin start whole = origin start folder := by
  unfold Files.origin Files.isAbsolute
  cases joins with
  | bare =>
    obtain ⟨c, rest, rfl⟩ := List.exists_cons_of_ne_nil named.filled
    have other : c ≠ '/' := fun same => named.unslashed (same ▸ List.mem_cons_self)
    simp [other]
  | slashed front => cases front <;> rfl
  | plain filled =>
    obtain ⟨c, rest, rfl⟩ := List.exists_cons_of_ne_nil filled
    rfl

theorem Joins.ended (joins : Joins name folder whole) : name <:+ whole := by
  cases joins with
  | bare => exact List.suffix_refl name
  | slashed | plain => exact (List.suffix_cons '/' name).trans (List.suffix_append _ _)

theorem Joins.unslashed (joins : Joins name folder whole) (named : IsFileName name) :
    whole ≠ [] ∧ whole.getLast? ≠ some '/' := by
  obtain ⟨front, rfl⟩ := joins.ended
  refine ⟨by simp [named.filled], ?_⟩
  rw [List.getLast?_append_of_ne_nil front named.filled]
  exact fun last => named.unslashed (List.mem_of_getLast? last)

theorem Joins.spoken (joins : Joins name folder whole) (named : '\x00' ∉ name) (spoken : '\x00' ∉ folder) :
    '\x00' ∉ whole := by
  cases joins with
  | bare => exact named
  | slashed | plain => simp_all

/-- Where a path leads on some machine, and thus on every machine on which it leads anywhere. -/
def Leads (path : String) (p : Place) : Prop :=
  ∃ fs : Files, fs.trail (origin base (Bytes.ofString path)) (parts (Bytes.ofString path)) = .ok p

theorem Leads.unique {path : String} {p q : Place} (one : Leads path p) (other : Leads path q) : p = q := by
  obtain ⟨fs, leads⟩ := one
  obtain ⟨new, back⟩ := other
  exact Files.trailUnique leads back

theorem Leads.ofLocate {fs : Files} {path : String} {p : Place}
    (leads : fs.locate base (Bytes.ofString path) = .ok p) : Leads path p := ⟨fs, Files.trailOfLocate leads⟩

theorem Leads.ofInside {folder name : String} {p : Place} (named : IsFileName (Bytes.ofString name))
    (leads : Leads (inside folder name) p) : ∃ q, Leads folder q ∧ p = q ++ [Bytes.ofString name] := by
  obtain ⟨fs, found⟩ := leads
  have joins := joinsInside folder name
  rw [joins.parts, joins.origin named, named.parts] at found
  obtain ⟨q, front, last⟩ := Files.trailConcat.mp found
  have step := (Files.stepOk.mp last).2
  rw [named.beyond] at step
  exact ⟨q, ⟨fs, front⟩, (Except.ok.inj step).symm⟩

end Paths

section Changes

variable {path : String} {f : Files → Bytes → Except Refusal Files} {before after : World}
  {result : Except Refusal Unit}

inductive Changed (path : String) (f : Files → Bytes → Except Refusal Files) (before : World) :
    Except Refusal Unit → World → Prop
  | unspoken (null : '\x00' ∈ Bytes.ofString path) : Changed path f before (.error .nullInPath) before
  | refused {r : Refusal} (reason : f before.files (Bytes.ofString path) = .error r) : Changed path f before (.error r) before
  | done {files : Files} (made : f before.files (Bytes.ofString path) = .ok files) :
    Changed path f before (.ok ()) { before with files }

theorem changeAtRun (done : (changeAt path f).run before = (result, after)) : Changed path f before result after := by
  simp only [changeAt] at done
  split at done
  · next null =>
    cases done
    exact .unspoken (List.contains_iff_mem.mp null)
  · simp only [StateT.run_bind, StateT.run_get, pure_bind] at done
    split at done
    · next r reason =>
      cases done
      exact .refused reason
    · next files made =>
      cases done
      exact .done made

end Changes

section Keeping

variable {p : Place}

def KeptAt (p : Place) (before after : World) : Prop :=
  after.files.entry? p = before.files.entry? p
    ∨ before.files.entry? p = none ∧ after.files.entry? p = some .folder

namespace KeptAt

variable {first second third : World}

theorem refl (p : Place) (w : World) : KeptAt p w w := .inl rfl

theorem trans (one : KeptAt p first second) (other : KeptAt p second third) : KeptAt p first third := by
  rcases one with same | ⟨free, folder⟩
  · unfold KeptAt
    rwa [← same]
  · rcases other with same | ⟨taken, -⟩
    · exact .inr ⟨free, same.trans folder⟩
    · rw [folder] at taken
      cases taken

theorem ofGrows (grows : Grows first.files second.files) (p : Place) : KeptAt p first second := by
  cases before : first.files.entry? p with
  | some e => exact .inl ((grows.keeps before).trans before.symm)
  | none =>
    cases after : second.files.entry? p with
    | none => exact .inl (after.trans before.symm)
    | some e =>
      rcases grows.adds after with there | rfl
      · rw [before] at there
        cases there
      · exact .inr ⟨before, after⟩

end KeptAt

variable {folder : String} {e : Effect Program} {before after : World}

theorem startRun {command : String} {args : List String} {result : Except Refusal Program}
    (done : (machine.start command args folder).run before = (result, after)) : after = before
      ∧ ∀ program, result = .ok program → program.path = Bytes.ofString command
        ∧ program.args = args.map Bytes.ofString ∧ Leads folder program.folder := by
  simp only [machine, StateT.run_bind, StateT.run_get, pure_bind] at done
  split at done
  · cases done
    exact ⟨rfl, nofun⟩
  · next place found =>
    simp only [StateT.run_bind, StateT.run_get, pure_bind] at done
    split at done
    · cases done
      exact ⟨rfl, nofun⟩
    · cases done
      refine ⟨rfl, fun program started => ?_⟩
      cases started
      exact ⟨rfl, rfl, .ofLocate found⟩

theorem writeInOk {content : List UInt8} {fs new : Files} {path : Bytes} (done : writeIn content fs path = .ok new) :
    ∃ q, fs.locate base path = .ok q ∧ fs.write q (Bytes.ofList content) false = .ok new := okOfBind done

theorem removeInOk {fs new : Files} {path : Bytes} (done : removeIn fs path = .ok new) :
    ∃ q, fs.locate base path = .ok q ∧ new = fs.remove q := by
  obtain ⟨q, found, removed⟩ := okOfBind done
  split at removed
  · cases removed
    exact ⟨q, found, rfl⟩
  · cases removed

theorem removeInFolder {fs : Files} {path : Bytes} {q : Place} (found : fs.locate base path = .ok q)
    (folder : fs.isFolder q) : removeIn fs path = .ok (fs.remove q) := by
  unfold removeIn
  rw [found]
  exact if_pos folder

theorem folderMadeRun {result : Except Refusal Unit} (does : machine.Does before (.folderMade folder result) after) :
    Changed folder (Files.makeFolders · base) before result after := changeAtRun does

theorem fileWrittenRun {path : String} {content : List UInt8} {result : Except Refusal Unit}
    (does : machine.Does before (.fileWritten path content result) after) :
    Changed path (writeIn content) before result after := changeAtRun does

theorem folderRemovedRun {result : Except Refusal Unit} (does : machine.Does before (.folderRemoved folder result) after) :
    Changed folder removeIn before result after := changeAtRun does

theorem madeIsThere {folder name : String} (named : IsFileName (Bytes.ofString name))
    (does : machine.Does before (.folderMade (inside folder name) (.ok ())) after) :
    ∃ q, after.files.locate base (Bytes.ofString (inside folder name)) = .ok q ∧ after.files.isFolder q := by
  cases folderMadeRun does with
  | done made =>
    obtain ⟨-, q, leads, there⟩ := Files.makeFoldersOk made
    obtain ⟨filled, unslashed⟩ := (joinsInside folder name).unslashed named
    exact ⟨q, Files.locateOfTrail filled unslashed leads, there⟩

theorem effectKeeps (within : machine.Within folder e) (beside : ∀ q, Leads folder q → ¬ q <+: p)
    (quiet : ∀ program limit result, e = .awaited program limit result → KeptAt p before after)
    (does : machine.Does before e after) : KeptAt p before after := by
  cases e with
  | named name =>
    cases does
    exact .refl p _
  | folderMade path result =>
    cases folderMadeRun does with
    | unspoken | refused => exact .refl p _
    | done made => exact .ofGrows (Files.makeFoldersOk made).1 p
  | fileWritten path content result =>
    obtain rfl : path = inside folder documentName := within
    cases fileWrittenRun does with
    | unspoken | refused => exact .refl p _
    | done made =>
      obtain ⟨q, found, wrote⟩ := writeInOk made
      obtain ⟨r, leads, rfl⟩ := (Leads.ofLocate found).ofInside documentNameIsFileName
      refine .inl ((Files.entryOfWrite wrote p).trans (if_neg ?_))
      rintro rfl
      exact beside r leads (List.prefix_append _ _)
  | started command args path result =>
    rw [(startRun does).1]
    exact .refl p _
  | awaited program limit result => exact quiet program limit result rfl
  | folderRemoved path result =>
    obtain rfl : path = folder := within
    cases folderRemovedRun does with
    | unspoken | refused => exact .refl p _
    | done made =>
      obtain ⟨q, found, rfl⟩ := removeInOk made
      by_cases root : p = []
      · rw [root]
        exact .inl rfl
      · exact .inl ((Files.entryOfRemove _ q root).trans (if_neg (beside q (.ofLocate found))))

end Keeping

section Runs

variable {s : Settings} {document : String} {p q : Place} {before after : World} {o : Outcome}
  {journal : List (Effect Program)} {result : Except RunError Outcome}

theorem machineTraced (s : Settings) (document : String) (before : World) : ∃ journal after result,
    (Reasoner.solve machine s document).run before = (Reasoner.told result, after)
      ∧ (Reasoner.solve machine.journaled s document).run (before, []) = (Reasoner.told result, after, journal)
      ∧ machine.DoesAll before journal after ∧ Course s document runName journal result := by
  obtain ⟨name, journal, after, result, traced, course⟩ := Reasoner.solveTraced s document machine before
  have named : .named name ∈ journal := by cases course <;> simp
  obtain ⟨first, second, drawn⟩ := traced.leads.does named
  cases drawn
  exact ⟨journal, after, result, traced.plain, traced.noted [], traced.leads, course⟩

structure IsFor (s : Settings) (program : Program) : Prop where
  path : program.path = Bytes.ofString s.program
  args : program.args = (s.args ++ [documentName]).map Bytes.ofString
  folder : Leads (inside s.folder runName) program.folder

theorem startedIsFor (done : machine.DoesAll before journal after) {program : Program}
    (started : launched s (inside s.folder runName) (.ok program) ∈ journal) : IsFor s program := by
  obtain ⟨first, second, does⟩ := done.does started
  obtain ⟨path, args, folder⟩ := (startRun does).2 program rfl
  exact ⟨path, args, folder⟩

theorem solveKeeps (beside : ∀ q, Leads (inside s.folder runName) q → ¬ q <+: p)
    (quiet : ∀ program, IsFor s program → ∀ limit before, KeptAt p before ((program.wait limit).run before).2) :
    KeptAt p before ((Reasoner.solve machine s document).run before).2 := by
  obtain ⟨journal, after, result, plain, -, done, course⟩ := machineTraced s document before
  rw [plain]
  have within := course.stays (h := machine) fun e => done.does
  refine done.relates (KeptAt p) (.refl p) .trans fun e member first second does => ?_
  refine effectKeeps (within e member) beside ?_ does
  rintro program limit waiting rfl
  have finished : (program.wait limit).run first = (waiting, second) := does
  have kept := quiet program (startedIsFor done (course.launches member)) limit first
  rwa [finished] at kept

theorem removalLeavesNoFolder {path : String} {removal : Except Refusal Unit}
    (changed : Changed path removeIn before removal after) (spoken : '\x00' ∉ Bytes.ofString path)
    (inner : ∀ q, Leads path q → q ≠ []) (there : after.files.locate base (Bytes.ofString path) = .ok q) :
    after.files.isFolder q = false := by
  cases changed with
  | unspoken null => exact absurd null spoken
  | refused reason =>
    refine Bool.eq_false_iff.mpr fun folder => ?_
    rw [removeInFolder there folder] at reason
    cases reason
  | done made =>
    obtain ⟨r, found, rfl⟩ := removeInOk made
    obtain rfl := (Leads.ofLocate found).unique (.ofLocate there)
    have gone := Files.entryOfRemove before.files r (inner r (.ofLocate found))
    rw [if_pos (List.prefix_refl r)] at gone
    simp [Files.isFolder, gone]

theorem solveLeavesNoFolder (spoken : '\x00' ∉ Bytes.ofString s.folder)
    (done : (Reasoner.solve machine s document).run before = (o, after))
    (there : after.files.locate base (Bytes.ofString (inside s.folder runName)) = .ok q) :
    after.files.isFolder q = false := by
  have spokenPath := (joinsInside s.folder runName).spoken (by decide +kernel) spoken
  have inner (r : Place) (leads : Leads (inside s.folder runName) r) : r ≠ [] := by
    obtain ⟨front, -, rfl⟩ := leads.ofInside runNameIsFileName
    simp
  obtain ⟨journal, last, result, plain, -, all, course⟩ := machineTraced s document before
  cases plain.symm.trans done
  cases course with
  | noFolder r =>
    obtain ⟨drawn, -, made⟩ := all.first
    obtain ⟨ready, does, ⟨⟩⟩ := made.first
    cases folderMadeRun does with
    | unspoken null => exact absurd null spokenPath
    | refused reason =>
      refine Bool.eq_false_iff.mpr fun folder => ?_
      rw [Files.makeFoldersOfFolder folder (Files.trailOfLocate there)] at reason
      cases reason
  | cleanedUp removal within =>
    obtain ⟨ready, -, removed⟩ := all.divide
    obtain ⟨cleaned, does, ⟨⟩⟩ := removed.first
    exact removalLeavesNoFolder (folderRemovedRun does) spokenPath inner there

theorem documentIsThere {folder : String} {between : World}
    (made : machine.Does before (.folderMade folder (.ok ())) between)
    (written : machine.Does between (Reasoner.wrote document folder (.ok ())) after) (leads : Leads folder q)
    (bare : ∀ cycle, before.files.entry? (q ++ [Bytes.ofString documentName]) ≠ some (.device cycle)) :
    after.files.entry? (q ++ [Bytes.ofString documentName]) = some (.file (Bytes.ofString document)) := by
  cases folderMadeRun made with
  | done added =>
    cases fileWrittenRun written with
    | done put =>
      obtain ⟨p, found, wrote⟩ := writeInOk put
      obtain ⟨r, here, rfl⟩ := (Leads.ofLocate found).ofInside documentNameIsFileName
      obtain rfl := here.unique leads
      refine Files.fileOfWrite wrote fun cycle there => ?_
      rcases (Files.makeFoldersOk added).1.adds there with old | folder
      · exact bare cycle old
      · cases folder

theorem startedWithDocument (bare : ∀ q cycle, Leads (inside s.folder runName) q →
      before.files.entry? (q ++ [Bytes.ofString documentName]) ≠ some (.device cycle))
    (entered : (Reasoner.solve machine.journaled s document).run (before, []) = (o, after, journal)) {program : Program}
    (started : launched s (inside s.folder runName) (.ok program) ∈ journal) :
    ∃ front back ready, journal = front ++ launched s (inside s.folder runName) (.ok program) :: back
      ∧ machine.DoesAll before front ready
      ∧ ready.files.entry? (program.folder ++ [Bytes.ofString documentName])
        = some (.file (Bytes.ofString document)) := by
  obtain ⟨journal, last, result, -, noted, done, course⟩ := machineTraced s document before
  cases noted.symm.trans entered
  have folder := (startedIsFor done started).folder
  cases course with
  | noFolder r => simp [launched] at started
  | cleanedUp removal within =>
    cases within with
    | notWritten | notStarted => simp [launched, Reasoner.wrote] at started
    | awaited other waiting =>
      obtain rfl : program = other := by simpa [launched, Reasoner.wrote] using started
      obtain ⟨ready, ahead, -⟩ := @Host.DoesAll.divide _ _ machine _ _
        [.named runName, .folderMade _ (.ok ()), Reasoner.wrote document _ (.ok ())] _ done
      obtain ⟨drawn, ⟨⟩, behind⟩ := ahead.first
      obtain ⟨between, made, last⟩ := behind.first
      obtain ⟨filled, written, ⟨⟩⟩ := last.first
      exact ⟨_, _, ready, rfl, ahead, documentIsThere made written folder fun cycle => bare _ cycle folder⟩

end Runs

end ConstraintDesk.Shell
