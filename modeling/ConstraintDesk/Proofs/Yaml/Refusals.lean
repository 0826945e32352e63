import ConstraintDesk.Yaml.Value
import Mathlib

/-! Why a YAML document cannot be read as a value. The misfits are few: a tag of an application, a tag that
does not go with the text of its scalar, an integer that is too large, and a key that is not a scalar. -/
namespace ConstraintDesk

def Misfit.quoted : Misfit → List (List Char)
  | .wrongType (.string s) _ | .wrongValue (.string s) _ => [s.toList]
  | _ => []

namespace Yaml

inductive IsCause : Misfit → Prop where
  | tagged : IsCause (.wrongType .taggedValue "any valid JSON value")
  | scalar (s : String) {expected : String} (named : expected ∈ ["a boolean", "an integer", "a float", "null"]) :
    IsCause (.wrongValue (.string s) expected)
  | huge : IsCause .hugeNumber
  | key {found : Found} {expected : String} (kind : found ∈ [Found.map, .null, .sequence])
    (named : expected ∈ ["a string key", "a string"]) : IsCause (.wrongType found expected)

def Misreading.IsRefusal : Misreading → Prop
  | .misfit cause _ _ => IsCause cause
  | _ => True

structure Refuses {α : Type} (r : Reader α) : Prop where
  refusal : ∀ {ns w e}, ns.failure.IsRefusal → r ns w = .error e → e.IsRefusal

namespace Refuses

variable {α β : Type} {r : Reader α} {f : α → Reader β}

theorem pure (a : α) : Refuses (pure a : Reader α) := ⟨fun _ failed => by cases failed⟩

theorem bind (h : Refuses r) (k : ∀ a, Refuses (f a)) : Refuses (r >>= f) := by
  refine ⟨fun {ns w e} sound failed => ?_⟩
  have step : (r >>= f) ns w = r ns w >>= fun (a, left) => f a ns left := rfl
  rw [step] at failed
  cases first : r ns w with
  | error own =>
    rw [first] at failed
    cases failed
    exact h.refusal sound first
  | ok read =>
    rw [first] at failed
    exact (k read.1).refusal sound failed

theorem throw (e : Misreading) (refusal : e.IsRefusal) : Refuses (throw e : Reader α) :=
  ⟨fun _ failed => by cases failed; exact refusal⟩

theorem ite {p : Prop} [Decidable p] {r s : Reader α} (yes : Refuses r) (no : Refuses s) :
    Refuses (if p then r else s) := by
  split
  · exact yes
  · exact no

theorem modify (change : Walk → Walk) : Refuses (modify change : Reader PUnit) := ⟨fun _ failed => by cases failed⟩

theorem get : Refuses (get : Reader Walk) := ⟨fun _ failed => by cases failed⟩

theorem set (w : Walk) : Refuses (set w : Reader PUnit) := ⟨fun _ failed => by cases failed⟩

theorem nodes : Refuses (MonadReader.read : Reader Nodes) := ⟨fun _ failed => by cases failed⟩

theorem peek : Refuses Reader.peek := by
  unfold Reader.peek
  refine nodes.bind fun ns => get.bind fun w => ?_
  split
  · exact pure _
  · exact ⟨fun sound failed => by cases failed; exact sound⟩

theorem next : Refuses Reader.next := peek.bind fun start => (modify _).bind fun _ => pure start

theorem jump {body : Reader α} (h : Refuses body) (anchor : Nat) : Refuses (Reader.jump anchor body) := by
  refine nodes.bind fun ns => get.bind fun w => ?_
  extract_lets behind
  have sound : Refuses (behind ()) := by
    simp only [behind]
    split
    · exact throw _ trivial
    · exact (set _).bind fun _ => h.bind fun a => (modify _).bind fun _ => pure a
  exact ite ((throw .tooManyAliases trivial).bind fun _ => sound) sound

theorem misfit {cause : Misfit} (known : IsCause cause) (place : Place) (path : Path) :
    Refuses (Reader.misfit cause place path : Reader α) := throw _ known

theorem text {expected : String} (named : expected ∈ ["a string key", "a string"]) (fuel : Nat) (path : Path) :
    Refuses (Reader.text fuel path expected) := by
  induction fuel generalizing path with
  | zero => exact throw _ trivial
  | succ fuel ih =>
    refine next.bind fun (start, place) => ?_
    match start with
    | .scalar text style tag => exact pure _
    | .alias anchor => exact (ih _).jump anchor
    | .sequence _ | .map _ | .sequenceEnd | .mapEnd | .nothing => exact misfit (.key (by decide) named) place path

theorem causeOfResolve {text : List Char} {style : ScalarStyle} {tag : Option (List UInt8)} {m : Misfit}
    (failed : (resolve text style tag >>= Reader.ofResolved text) = .error m) : IsCause m := by
  cases resolved : resolve text style tag with
  | error own =>
    rw [resolved] at failed
    cases failed
    simp only [resolve] at resolved
    repeat' split at resolved
    all_goals cases resolved
    all_goals exact .scalar _ (by decide)
  | ok v =>
    rw [resolved] at failed
    cases v <;> cases failed
    exact .huge

theorem nested (fuel : Nat) :
    (∀ depth path, Refuses (Reader.value fuel depth path))
      ∧ (∀ depth path done, Refuses (Reader.items fuel depth path done))
      ∧ ∀ depth path done, Refuses (Reader.fields fuel depth path done) := by
  induction fuel with
  | zero =>
    refine ⟨fun depth path => ?_, fun depth path done => ?_, fun depth path done => ?_⟩
    · rw [Reader.value]; exact throw _ trivial
    · rw [Reader.items]; exact throw _ trivial
    · rw [Reader.fields]; exact throw _ trivial
  | succ fuel ih =>
    obtain ⟨value, items, fields⟩ := ih
    refine ⟨fun depth path => ?_, fun depth path done => ?_, fun depth path done => ?_⟩
    · rw [Reader.value]
      refine next.bind fun (start, place) => ?_
      extract_lets
      match start with
      | .alias anchor => exact (value ..).jump anchor
      | .scalar text style tag =>
        refine ite ((misfit .tagged place path).bind fun _ => ?_) ?_
        all_goals
          split
          · exact pure _
          · next m failed => exact misfit (causeOfResolve failed) place path
      | .sequence tag =>
        refine ite ((misfit .tagged place path).bind fun _ => ?_) ?_
        all_goals
          cases depth with
          | zero => exact throw _ trivial
          | succ depth => exact items ..
      | .map tag =>
        refine ite ((misfit .tagged place path).bind fun _ => ?_) ?_
        all_goals
          cases depth with
          | zero => exact throw _ trivial
          | succ depth => exact fields ..
      | .sequenceEnd | .mapEnd | .nothing => exact pure _
    · rw [Reader.items]
      refine peek.bind fun (start, place) => ?_
      split
      · exact next.bind fun _ => pure _
      · exact (value ..).bind fun v => items ..
    · rw [Reader.fields]
      refine peek.bind fun (start, place) => ?_
      match start with
      | .mapEnd => exact next.bind fun _ => pure _
      | .scalar .. | .alias _ | .sequence _ | .map _ | .sequenceEnd | .nothing =>
        refine (text ?_ fuel path).bind fun name => (value ..).bind fun v => fields ..
        split <;> decide

end Refuses

namespace Nodes

structure FailsSoundly (ns : Nodes) : Prop where
  failure : ns.failure.IsRefusal
  complete : ∀ {e}, ns.complete = .error e → e.IsRefusal

theorem failsSoundlyAdd {ns after : Nodes} (h : ns.FailsSoundly) {event : Event}
    (added : ns.add event = .ok after ∨ ns.add event = .error after) : after.FailsSoundly := by
  have kept : ∀ {names targets starts}, FailsSoundly { ns with names, targets, starts } := ⟨h.failure, h.complete⟩
  have unknown : ∀ {names targets starts},
      FailsSoundly ⟨starts, .unknownAnchor event.place, targets, names, .error (.unknownAnchor event.place)⟩ :=
    ⟨trivial, fun same => by cases same; trivial⟩
  obtain ⟨kind, place, anchor, tag⟩ := event
  unfold add at added
  cases anchor <;> cases kind <;> simp only at added
  case none.alias | some.alias =>
    split at added <;> obtain added | added := added <;> cases added
    · exact kept
    · exact unknown
  all_goals
    obtain added | added := added <;> cases added
    exact kept

theorem failsSoundlyOfEvents {ns after : Nodes} (h : ns.FailsSoundly) {events : List Event}
    (added : events.foldlM add ns = .ok after ∨ events.foldlM add ns = .error after) : after.FailsSoundly := by
  induction events generalizing ns with
  | nil =>
    obtain added | added := added <;> cases added
    exact h
  | cons event events ih =>
    rw [List.foldlM_cons] at added
    cases first : ns.add event with
    | error own =>
      rw [first] at added
      obtain added | added := added <;> cases added
      exact failsSoundlyAdd h (.inr first)
    | ok next =>
      rw [first] at added
      exact ih (failsSoundlyAdd h (.inl first)) added

theorem failsSoundlyOfText (text : List Char) : (ofText text).FailsSoundly := by
  unfold ofText ofDocument
  generalize Document.ofText text = d
  extract_lets failure complete start
  have sound : start.FailsSoundly := by
    constructor
    · simp only [start, failure]
      cases d.fault <;> trivial
    · intro e failed
      simp only [start, complete] at failed
      split at failed
      · cases failed
        trivial
      · split at failed <;> cases failed
        trivial
  split
  · exact ⟨sound.failure, sound.complete⟩
  · split
    · next added => exact failsSoundlyOfEvents sound (.inl added)
    · next added => exact failsSoundlyOfEvents sound (.inr added)

end Nodes

theorem isRefusal {text : List Char} {e : Misreading} (failed : read text = .error e) : e.IsRefusal := by
  have sound := Nodes.failsSoundlyOfText text
  unfold read at failed
  generalize Nodes.ofText text = ns at failed sound
  have value := (Refuses.nested (140 * (ns.starts.size + 4))).1 128 .root
  simp only [StateT.run, bind, Except.bind] at failed
  split at failed
  · next own first =>
    cases failed
    exact value.refusal sound.failure first
  · split at failed
    · next last =>
      cases failed
      exact sound.complete last
    · cases failed

end Yaml
end ConstraintDesk
