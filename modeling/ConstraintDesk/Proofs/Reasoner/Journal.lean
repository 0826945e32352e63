import ConstraintDesk.Reasoner.Run
import Mathlib

/-! What a run asks of the system around it, step by step. A system that keeps a journal does what it did without
one, so the journal says what was done; and each entry leads from one state of the system to the next. -/
namespace ConstraintDesk

open Machine (Refusal)

inductive Effect (π : Type) where
  | named (name : String)
  | folderMade (path : String) (result : Except Refusal Unit)
  | fileWritten (path : String) (content : List UInt8) (result : Except Refusal Unit)
  | started (program : String) (args : List String) (folder : String) (result : Except Refusal π)
  | awaited (program : π) (limit : Option Nat) (result : Waiting)
  | folderRemoved (path : String) (result : Except Refusal Unit)

variable {σ π : Type}

theorem boundRun {α β : Type} {act : StateM σ α} {rest : α → StateM σ β} {before after : σ} {a : α}
    (done : act.run before = (a, after)) : (act >>= rest).run before = (rest a).run after := by
  rw [StateT.run_bind, done]
  rfl

def Effect.entered {α : Type} (act : StateM σ α) (effect : α → Effect π) : StateM (σ × List (Effect π)) α :=
  fun (state, journal) =>
    let (a, state) := act.run state
    (a, state, journal ++ [effect a])

namespace Host

def journaled (h : Host σ π) : Host (σ × List (Effect π)) π where
  freshName := Effect.entered h.freshName .named
  makeFolder path := Effect.entered (h.makeFolder path) (.folderMade path)
  writeFile path content := Effect.entered (h.writeFile path content) (.fileWritten path content)
  start program args folder := Effect.entered (h.start program args folder) (.started program args folder)
  wait program limit := Effect.entered (h.wait program limit) (.awaited program limit)
  removeFolder path := Effect.entered (h.removeFolder path) (.folderRemoved path)

def Does (h : Host σ π) (before : σ) (e : Effect π) (after : σ) : Prop :=
  match e with
  | .named name => h.freshName.run before = (name, after)
  | .folderMade path result => (h.makeFolder path).run before = (result, after)
  | .fileWritten path content result => (h.writeFile path content).run before = (result, after)
  | .started program args folder result => (h.start program args folder).run before = (result, after)
  | .awaited program limit result => (h.wait program limit).run before = (result, after)
  | .folderRemoved path result => (h.removeFolder path).run before = (result, after)

inductive DoesAll (h : Host σ π) : σ → List (Effect π) → σ → Prop
  | nil {state : σ} : DoesAll h state [] state
  | cons {before between after : σ} {e : Effect π} {rest : List (Effect π)} (first : h.Does before e between)
      (behind : DoesAll h between rest after) : DoesAll h before (e :: rest) after

theorem DoesAll.append {h : Host σ π} {before between after : σ} {front back : List (Effect π)}
    (first : h.DoesAll before front between) (second : h.DoesAll between back after) :
    h.DoesAll before (front ++ back) after := by
  induction first with
  | nil => exact second
  | cons first _ ih => exact .cons first (ih second)

theorem DoesAll.first {h : Host σ π} {before after : σ} {e : Effect π} {rest : List (Effect π)}
    (done : h.DoesAll before (e :: rest) after) : ∃ between, h.Does before e between ∧ h.DoesAll between rest after := by
  cases done with
  | cons first behind => exact ⟨_, first, behind⟩

theorem DoesAll.divide {h : Host σ π} {before after : σ} {front back : List (Effect π)}
    (done : h.DoesAll before (front ++ back) after) :
    ∃ between, h.DoesAll before front between ∧ h.DoesAll between back after := by
  induction front generalizing before with
  | nil => exact ⟨before, .nil, done⟩
  | cons e rest ih =>
    obtain ⟨next, first, behind⟩ := done.first
    obtain ⟨between, ahead, last⟩ := ih behind
    exact ⟨between, .cons first ahead, last⟩

theorem DoesAll.relates {h : Host σ π} {before after : σ} {journal : List (Effect π)}
    (done : h.DoesAll before journal after) (R : σ → σ → Prop) (refl : ∀ state, R state state)
    (trans : ∀ {first second third}, R first second → R second third → R first third)
    (each : ∀ e ∈ journal, ∀ before after, h.Does before e after → R before after) : R before after := by
  induction done with
  | nil => exact refl _
  | cons first _ ih =>
    exact trans (each _ List.mem_cons_self _ _ first) (ih fun e member => each e (List.mem_cons_of_mem _ member))

theorem DoesAll.keeps {α : Type} {view : σ → α} {h : Host σ π} {before after : σ} {journal : List (Effect π)}
    (done : h.DoesAll before journal after)
    (each : ∀ e ∈ journal, ∀ before after, h.Does before e after → view after = view before) :
    view after = view before :=
  done.relates (fun before after => view after = view before) (fun _ => rfl) (fun one other => other.trans one) each

variable {α β : Type}

structure Traces (h : Host σ π) (plain : StateM σ α) (noted : StateM (σ × List (Effect π)) α) (before : σ)
    (entries : List (Effect π)) (after : σ) (a : α) : Prop where
  plain : plain.run before = (a, after)
  noted (journal : List (Effect π)) : noted.run (before, journal) = (a, after, journal ++ entries)
  leads : h.DoesAll before entries after

namespace Traces

variable {h : Host σ π} {before between after : σ}

theorem entered {act : StateM σ α} (effect : α → Effect π) {a : α} (done : act.run before = (a, after))
    (does : h.Does before (effect a) after) :
    Traces h act (Effect.entered act effect) before [effect a] after a where
  plain := done
  noted journal := by
    simp only [Effect.entered, StateT.run] at done ⊢
    rw [done]
  leads := .cons does .nil

theorem pure (a : α) : Traces h (Pure.pure a) (Pure.pure a) before [] before a where
  plain := rfl
  noted journal := by rw [List.append_nil]; rfl
  leads := .nil

theorem bind {act : StateM σ α} {noted : StateM (σ × List (Effect π)) α} {rest : α → StateM σ β}
    {notedRest : α → StateM (σ × List (Effect π)) β} {front back : List (Effect π)} {a : α} {b : β}
    (first : Traces h act noted before front between a)
    (second : Traces h (rest a) (notedRest a) between back after b) :
    Traces h (act >>= rest) (noted >>= notedRest) before (front ++ back) after b where
  plain := (boundRun first.plain).trans second.plain
  noted journal := by
    rw [boundRun (first.noted journal), ← List.append_assoc]
    exact second.noted _
  leads := first.leads.append second.leads

end Traces
end Host

namespace Reasoner

open Host (Traces)

variable (s : Settings) (document : String)

def wrote (folder : String) : Except Refusal Unit → Effect π :=
  .fileWritten (inside folder documentName) (Utf8.encode document.toList)

def launched (folder : String) : Except Refusal π → Effect π := .started s.program (s.args ++ [documentName]) folder

def resultOf : Waiting → Except RunError Outcome
  | .finished f => .ok f.outcome
  | .refused r => .error (.host r)
  | .late => .error (.late (s.timeoutMs.getD 0))

inductive Inside (folder : String) : List (Effect π) → Except RunError Outcome → Prop
  | notWritten (r : Refusal) : Inside folder [wrote document folder (.error r)] (.error (.host r))
  | notStarted (r : Refusal) : Inside folder [wrote document folder (.ok ()), launched s folder (.error r)]
      (.error (.notStarted s.program r))
  | awaited (program : π) (result : Waiting) : Inside folder
      [wrote document folder (.ok ()), launched s folder (.ok program), .awaited program s.timeoutMs result]
      (resultOf s result)

inductive Course (name : String) : List (Effect π) → Except RunError Outcome → Prop
  | noFolder (r : Refusal) : Course name
      [.named name, .folderMade (inside s.folder name) (.error r)] (.error (.host r))
  | cleanedUp {within : List (Effect π)} {result : Except RunError Outcome} (removal : Except Refusal Unit)
      (done : Inside s document (inside s.folder name) within result) : Course name
        ([.named name, .folderMade (inside s.folder name) (.ok ())] ++ within
          ++ [.folderRemoved (inside s.folder name) removal]) result

variable (h : Host σ π)

theorem awaitTraced (program : π) (before : σ) : ∃ result after,
    Traces h (await h s program) (await h.journaled s program) before [.awaited program s.timeoutMs result] after
      (resultOf s result) := by
  rcases waited : (h.wait program s.timeoutMs).run before with ⟨result, after⟩
  refine ⟨result, after, (Traces.entered (.awaited program s.timeoutMs) waited waited).bind ?_⟩
  cases result with
  | finished | refused | late => exact .pure _

theorem runInTraced (folder : String) (before : σ) : ∃ within after result,
    Traces h (runIn h s folder document) (runIn h.journaled s folder document) before within after result
      ∧ Inside s document folder within result := by
  rcases written : (h.writeFile (inside folder documentName) (Utf8.encode document.toList)).run before
    with ⟨r | _, ready⟩
  · exact ⟨_, ready, _, (Traces.entered (wrote document folder) written written).bind (.pure _), .notWritten r⟩
  have ahead := Traces.entered (h := h) (wrote document folder) written written
  rcases started : (h.start s.program (s.args ++ [documentName]) folder).run ready with ⟨r | program, running⟩
  · exact ⟨_, running, _, ahead.bind ((Traces.entered (launched s folder) started started).bind (.pure _)),
      .notStarted r⟩
  obtain ⟨result, after, waited⟩ := awaitTraced s h program running
  exact ⟨_, after, _, ahead.bind ((Traces.entered (launched s folder) started started).bind waited),
    .awaited program result⟩

theorem runTraced (before : σ) : ∃ name journal after result,
    Traces h (run h s document) (run h.journaled s document) before journal after result
      ∧ Course s document name journal result := by
  rcases fresh : h.freshName.run before with ⟨name, drawn⟩
  have named := Traces.entered (h := h) .named fresh fresh
  rcases made : (h.makeFolder (inside s.folder name)).run drawn with ⟨r | _, ready⟩
  · exact ⟨name, _, ready, _, named.bind ((Traces.entered (.folderMade _) made made).bind (.pure _)),
      .noFolder r⟩
  obtain ⟨within, done, result, inner, course⟩ := runInTraced s document h (inside s.folder name) ready
  rcases gone : (h.removeFolder (inside s.folder name)).run done with ⟨removal, after⟩
  refine ⟨name, _, after, result, ?_, .cleanedUp removal course⟩
  rw [List.append_assoc]
  exact named.bind ((Traces.entered (.folderMade _) made made).bind
    (inner.bind ((Traces.entered (.folderRemoved _) gone gone).bind (.pure _))))

def told : Except RunError Outcome → Outcome
  | .ok o => o
  | .error e => .failure e.message ""

theorem solveTraced (before : σ) : ∃ name journal after result,
    Traces h (solve h s document) (solve h.journaled s document) before journal after (told result)
      ∧ Course s document name journal result := by
  obtain ⟨name, journal, after, result, traced, course⟩ := runTraced s document h before
  refine ⟨name, journal, after, result, ?_, course⟩
  rw [← List.append_nil journal]
  refine traced.bind ?_
  cases result with
  | ok | error => exact .pure _

end Reasoner
end ConstraintDesk
