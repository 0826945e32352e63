import ConstraintDesk.Proofs.Reasoner.Journal
import ConstraintDesk.Proofs.Text.Ascii
import ConstraintDesk.Proofs.Text.Occurrence

/-! Every run cleans up after itself, and tells what became of it. Whatever fails on the way, the folder that was made
is removed at the end, nothing beside it was touched, and the outcome is the one that the journal gives reason for.
Whether a model can be satisfied is told by the bytes that the program printed: reading them as text neither makes the
mark that says so nor hides it. -/
namespace ConstraintDesk

open Machine (Refusal)

variable {σ π : Type}

namespace Effect

def error? : Effect π → Option RunError
  | .folderMade _ (.error r) | .fileWritten _ _ (.error r) | .awaited _ _ (.refused r) => some (.host r)
  | .started program _ _ (.error r) => some (.notStarted program r)
  | .awaited _ limit .late => some (.late (limit.getD 0))
  | _ => none

def IsRemoval : Effect π → Prop
  | .folderRemoved .. => True
  | _ => False

end Effect

namespace Host

/-- That nothing is touched by this but one folder. A program may do what it likes where it was started. -/
def Within (h : Host σ π) (folder : String) : Effect π → Prop
  | .named _ => True
  | .folderMade path _ | .folderRemoved path _ | .started _ _ path _ => path = folder
  | .fileWritten path _ _ => path = Reasoner.inside folder Reasoner.documentName
  | .awaited program _ _ =>
    ∃ command args before after, h.Does before (.started command args folder (.ok program)) after

/-- That what is seen of a system depends on nothing that happens within a folder. -/
def Apart {α : Type} (h : Host σ π) (folder : String) (view : σ → α) : Prop :=
  ∀ e before after, h.Within folder e → h.Does before e after → view after = view before

theorem DoesAll.does {h : Host σ π} {before after : σ} {journal : List (Effect π)}
    (done : h.DoesAll before journal after) {e : Effect π} (member : e ∈ journal) :
    ∃ before after, h.Does before e after := by
  induction done with
  | nil => cases member
  | cons first _ ih =>
    rcases List.mem_cons.mp member with rfl | behind
    · exact ⟨_, _, first⟩
    · exact ih behind

end Host

theorem Finished.accepted {f : Finished} : f.outcome.error = none ↔ f.ending = .exited 0 := by
  unfold Finished.outcome
  split <;> rename_i ended <;> simp [Outcome.success, ended]

namespace Reasoner

variable {h : Host σ π} {s : Settings} {document folder name : String} {within journal : List (Effect π)}
  {result : Except RunError Outcome}

theorem Inside.stays (done : Inside s document folder within result)
    (does : ∀ e ∈ within, ∃ before after, h.Does before e after) : ∀ e ∈ within, h.Within folder e := by
  cases done with
  | notWritten r => simp [wrote, Host.Within]
  | notStarted r => simp [wrote, launched, Host.Within]
  | awaited program result =>
    obtain ⟨before, after, started⟩ := does (launched s folder (.ok program)) (by simp)
    simpa [wrote, launched, Host.Within] using ⟨_, _, before, after, started⟩

theorem Inside.noRemoval (done : Inside s document folder within result) : ∀ e ∈ within, ¬ e.IsRemoval := by
  cases done with
  | notWritten | notStarted | awaited => simp [wrote, launched, Effect.IsRemoval]

theorem Inside.errors (done : Inside s document folder within result) (error : RunError) :
    (∃ e ∈ within, e.error? = some error) ↔ result = .error error := by
  cases done with
  | notWritten | notStarted => simp [wrote, launched, Effect.error?]
  | awaited program result => cases result <;> simp [wrote, launched, Effect.error?, resultOf]

theorem Inside.finished (done : Inside s document folder within result) (o : Outcome) :
    (∃ program f, launched s folder (.ok program) ∈ within ∧ .awaited program s.timeoutMs (.finished f) ∈ within
      ∧ f.outcome = o) ↔ result = .ok o := by
  cases done with
  | notWritten | notStarted => simp [wrote, launched]
  | awaited program result => cases result <;> simp [wrote, launched, resultOf]

theorem Course.stays (course : Course s document name journal result)
    (does : ∀ e ∈ journal, ∃ before after, h.Does before e after) :
    ∀ e ∈ journal, h.Within (inside s.folder name) e := by
  cases course with
  | noFolder r => simp [Host.Within]
  | cleanedUp removal done =>
    have inner := done.stays (h := h) fun e member => does e (by simp [member])
    simpa [Host.Within, or_imp, forall_and] using inner

theorem Course.errors (course : Course s document name journal result) (error : RunError) :
    (∃ e ∈ journal, e.error? = some error) ↔ result = .error error := by
  cases course with
  | noFolder r => simp [Effect.error?]
  | cleanedUp removal done =>
    rw [← done.errors]
    simp [Effect.error?]

theorem Course.finished (course : Course s document name journal result) (o : Outcome) :
    (∃ program f, launched s (inside s.folder name) (.ok program) ∈ journal
      ∧ .awaited program s.timeoutMs (.finished f) ∈ journal ∧ f.outcome = o) ↔ result = .ok o := by
  cases course with
  | noFolder r => simp [launched]
  | cleanedUp removal done =>
    rw [← done.finished]
    simp [launched]

structure Account (s : Settings) (name : String) (journal : List (Effect π)) (o : Outcome) : Prop where
  named : journal.head? = some (.named name)
  removed : .folderMade (inside s.folder name) (.ok ()) ∈ journal → ∃ front removal,
    journal = front ++ [.folderRemoved (inside s.folder name) removal] ∧ ∀ e ∈ front, ¬ e.IsRemoval
  unmade : .folderMade (inside s.folder name) (.ok ()) ∉ journal → ∀ e ∈ journal, ¬ e.IsRemoval
  told : (∃ e ∈ journal, ∃ error, e.error? = some error) ∨ ∃ program f,
    launched s (inside s.folder name) (.ok program) ∈ journal ∧ .awaited program s.timeoutMs (.finished f) ∈ journal
      ∧ o = f.outcome
  failed : ∀ e ∈ journal, ∀ error, e.error? = some error →
    o.error = some error.message ∧ o.stdout = "" ∧ o.stderr = "" ∧ o.isSatisfiable = false
  accepted : o.error = none ↔ ∃ program f, launched s (inside s.folder name) (.ok program) ∈ journal
    ∧ .awaited program s.timeoutMs (.finished f) ∈ journal ∧ f.ending = .exited 0

theorem Course.account (course : Course s document name journal result) : Account s name journal (told result) where
  named := by cases course <;> rfl
  removed made := by
    cases course with
    | noFolder r => simp at made
    | cleanedUp removal done => exact ⟨_, removal, rfl, by simpa [Effect.IsRemoval] using done.noRemoval⟩
  unmade unmade := by
    cases course with
    | noFolder r => simp [Effect.IsRemoval]
    | cleanedUp removal done => simp at unmade
  told := by
    cases result with
    | error error =>
      obtain ⟨e, member, failed⟩ := (course.errors error).mpr rfl
      exact .inl ⟨e, member, error, failed⟩
    | ok o =>
      obtain ⟨program, f, started, awaited, same⟩ := (course.finished o).mpr rfl
      exact .inr ⟨program, f, started, awaited, same.symm⟩
  failed e member error failed := by
    cases (course.errors error).mp ⟨e, member, failed⟩
    exact ⟨rfl, rfl, rfl, rfl⟩
  accepted := by
    constructor
    · intro accepted
      cases result with
      | error error => cases accepted
      | ok o =>
        obtain ⟨program, f, started, awaited, rfl⟩ := (course.finished o).mpr rfl
        exact ⟨program, f, started, awaited, Finished.accepted.mp accepted⟩
    · rintro ⟨program, f, started, awaited, ended⟩
      cases (course.finished f.outcome).mp ⟨program, f, started, awaited, rfl⟩
      exact Finished.accepted.mpr ended

theorem solveTold (before : σ) : ((solve h s document).run before).1 = told ((run h s document).run before).1 := by
  unfold solve
  rcases ran : (run h s document).run before with ⟨result, after⟩
  rw [boundRun ran]
  cases result <;> rfl

theorem runRemoving (remove : String → StateM σ (Except Refusal Unit)) (before : σ) :
    ((run { h with removeFolder := remove } s document).run before).1 = ((run h s document).run before).1 := by
  have inner folder : runIn { h with removeFolder := remove } s folder document = runIn h s folder document := rfl
  unfold run
  rcases fresh : h.freshName.run before with ⟨name, drawn⟩
  rcases made : (h.makeFolder (inside s.folder name)).run drawn with ⟨r | _, ready⟩
  · rw [boundRun fresh, boundRun fresh, boundRun made, boundRun made]
  rcases ran : (runIn h s (inside s.folder name) document).run ready with ⟨result, done⟩
  rw [boundRun fresh, boundRun fresh, boundRun made, boundRun made]
  simp only [inner]
  rw [boundRun ran, boundRun ran]
  rfl

end Reasoner

structure Plan where
  name : String
  made : Except Refusal Unit
  written : Except Refusal Unit
  started : Except Refusal Unit
  waiting : Waiting
  removed : Except Refusal Unit

namespace Plan

open Reasoner (inside)

def IsIn (folder path : String) : Prop := path = folder ∨ (inside folder "").toList <+: path.toList
  deriving Decidable

def host (p : Plan) : Host (List String) Unit where
  freshName := return p.name
  makeFolder path := fun paths => (p.made, if p.made.isOk then path :: paths else paths)
  writeFile path _ := fun paths => (p.written, if p.written.isOk then path :: paths else paths)
  start _ _ _ := return p.started
  wait _ _ := return p.waiting
  removeFolder path := fun paths => (p.removed, if p.removed.isOk then paths.filter (¬ IsIn path ·) else paths)

def outside (folder : String) (paths : List String) : List String := paths.filter (¬ IsIn folder ·)

theorem isInInside (folder name : String) : IsIn folder (inside folder name) := by
  right
  unfold inside
  split <;> simp

theorem outsideApart (p : Plan) (folder : String) : p.host.Apart folder (outside folder) := by
  rintro e before after within done
  cases e with
  | named | started | awaited => cases done; rfl
  | folderMade path =>
    cases done
    cases within
    split <;> simp [outside, IsIn]
  | fileWritten path =>
    cases done
    cases within
    split <;> simp [outside, isInInside]
  | folderRemoved path =>
    cases done
    cases within
    split <;> simp [outside]

end Plan

namespace Reasoner

theorem solveAccount (h : Host σ π) (s : Settings) (document : String) (before : σ) : ∃ name journal after o,
    (solve h s document).run before = (o, after)
      ∧ (solve h.journaled s document).run (before, []) = (o, after, journal)
      ∧ Account s name journal o
      ∧ (∀ e ∈ journal, h.Within (inside s.folder name) e)
      ∧ (∀ {α : Type} (view : σ → α), h.Apart (inside s.folder name) view → view after = view before)
      ∧ ∀ remove, ((solve { h with removeFolder := remove } s document).run before).1 = o := by
  obtain ⟨name, journal, after, result, traced, course⟩ := solveTraced s document h before
  have within := course.stays (h := h) fun e => traced.leads.does
  refine ⟨name, journal, after, told result, traced.plain, traced.noted [], course.account, within, ?_, ?_⟩
  · exact fun view apart => traced.leads.keeps fun e member before after => apart e before after (within e member)
  · intro remove
    rw [solveTold, runRemoving, ← solveTold, traced.plain]

def latePlan : Plan := ⟨"a", .ok (), .ok (), .ok (), .late, .error .notPermitted⟩

def hurriedSettings : Settings := { Settings.default with timeoutMs := some 5 }

theorem solveAccountLate : ∃ o after, (solve latePlan.host hurriedSettings "").run ["csp_files/b"] = (o, after)
    ∧ o.error = some "reasoner timed out after 5 ms" ∧ o.stdout = "" ∧ o.stderr = ""
    ∧ Plan.outside "csp_files/a" after = ["csp_files/b"] := by
  obtain ⟨name, journal, after, o, plain, noted, account, -, kept, -⟩ :=
    solveAccount latePlan.host hurriedSettings "" ["csp_files/b"]
  have entered : ((solve latePlan.host.journaled hurriedSettings "").run (["csp_files/b"], [])).2.2 = journal := by
    rw [noted]
  have named : journal.head? = some (.named "a") := entered ▸ rfl
  have late : .awaited () (some 5) .late ∈ journal := entered ▸ .tail _ (.tail _ (.tail _ (.tail _ (.head _))))
  obtain rfl : name = "a" := by simpa [account.named] using named
  obtain ⟨error, stdout, stderr, -⟩ := account.failed _ late (.late 5) rfl
  refine ⟨o, after, plain, error.trans (by decide +kernel), stdout, stderr, ?_⟩
  exact (kept _ (Plan.outsideApart latePlan _)).trans (by decide +kernel)

end Reasoner
end ConstraintDesk

namespace ConstraintDesk.Reasoner

variable {σ π : Type} {h : Host σ π} {s : Settings} {document name : String} {journal : List (Effect π)}
  {result : Except RunError Outcome}

theorem Course.awaited (course : Course s document name journal result) {program : π} {limit : Option Nat}
    {f : Finished} (awaited : .awaited program limit (.finished f) ∈ journal) : result = .ok f.outcome := by
  cases course with
  | noFolder r => simp at awaited
  | cleanedUp removal done =>
    cases done with
    | notWritten | notStarted => simp [wrote, launched] at awaited
    | awaited other result =>
      obtain ⟨-, -, rfl⟩ : program = other ∧ limit = s.timeoutMs ∧ .finished f = result := by
        simpa [wrote, launched] using awaited
      rfl

theorem Course.launches (course : Course s document name journal result) {program : π} {limit : Option Nat}
    {waiting : Waiting} (awaited : .awaited program limit waiting ∈ journal) :
    launched s (inside s.folder name) (.ok program) ∈ journal := by
  cases course with
  | noFolder r => simp at awaited
  | cleanedUp removal done =>
    cases done with
    | notWritten | notStarted => simp [wrote, launched] at awaited
    | awaited other result =>
      obtain ⟨rfl, -⟩ : program = other ∧ limit = s.timeoutMs ∧ waiting = result := by
        simpa [wrote, launched] using awaited
      simp

theorem markAscii : Utf8.IsAscii Finished.unsatisfiableMark.toList := by
  simp [Utf8.IsAscii, Finished.unsatisfiableMark]

theorem solveUnsatisfiable {before : σ} {program : π} {limit : Option Nat} {stdout stderr : List UInt8}
    (printed : .awaited program limit (.finished ⟨.exited 0, stdout, stderr⟩)
      ∈ ((solve h.journaled s document).run (before, [])).2.2) :
    (((solve h s document).run before).1.isSatisfiable = false
        ↔ Utf8.encode Finished.unsatisfiableMark.toList <:+: stdout)
      ∧ (Finished.unsatisfiableMark.toList <:+: Utf8.decode stdout
        ↔ Utf8.encode Finished.unsatisfiableMark.toList <:+: stdout)
      ∧ ∀ text, Utf8.decode stdout = text ↔ Utf8.Decoded stdout text := by
  have inside := Utf8.asciiInside (Utf8.decodedOf stdout).aligned markAscii
  obtain ⟨name, journal, after, result, traced, course⟩ := solveTraced s document h before
  rw [traced.noted []] at printed
  refine ⟨?_, inside, fun text => Utf8.decodeIff⟩
  rw [traced.plain, course.awaited printed, ← inside, ← Text.occursIff]
  simp [told, Finished.outcome, Outcome.success]

def brokenPlan : Plan := ⟨"a", .ok (), .ok (), .ok (),
  .finished ⟨.exited 0, 0xE2 :: Utf8.encode Finished.unsatisfiableMark.toList ++ [0x82], []⟩, .ok ()⟩

theorem solveUnsatisfiableBroken : ((solve brokenPlan.host Settings.default "").run []).1.isSatisfiable = false := by
  have printed : .awaited () none brokenPlan.waiting
      ∈ ((solve brokenPlan.host.journaled Settings.default "").run ([], [])).2.2 :=
    .tail _ (.tail _ (.tail _ (.tail _ (.head _))))
  exact (solveUnsatisfiable printed).1.mpr ⟨[0xE2], [0x82], rfl⟩

end ConstraintDesk.Reasoner
