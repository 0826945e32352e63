import ConstraintDesk.Reasoner.Host
import ConstraintDesk.Reasoner.Settings
import ConstraintDesk.Text.Basic
/-! Running the program that solves models. Every run has a folder of its own, which holds the document
and is removed when the run is over. Whatever goes wrong becomes an outcome. -/
namespace ConstraintDesk

open Machine (Refusal)

inductive RunError where
  | host (refusal : Refusal)
  | notStarted (program : String) (refusal : Refusal)
  | late (milliseconds : Nat)
  deriving DecidableEq, Repr

def RunError.message : RunError → String
  | .host r => s!"reasoner I/O error: {r.message}"
  | .notStarted program r => s!"could not start reasoner '{program}': {r.message}"
  | .late ms => s!"reasoner timed out after {ms} ms"

namespace Finished

def unsatisfiableMark : String := "=====UNSATISFIABLE====="

/-- A program that ends well gives a solution or says that there is none; one that does not keeps what
it printed. Bytes that are no text are replaced. -/
def outcome (f : Finished) : Outcome :=
  let stdout := Utf8.decode f.stdout
  if f.ending = .exited 0 then
    .success (String.ofList stdout) (!Text.occursIn unsatisfiableMark.toList stdout)
  else
    ⟨some s!"reasoner exited with {f.ending.text}", String.ofList stdout,
      String.ofList (Utf8.decode f.stderr), false⟩

end Finished

namespace Reasoner

variable {σ π : Type}

def documentName : String := "model.dummy"

def inside (folder name : String) : String :=
  if folder.toList.getLast?.all (· = '/') then folder ++ name else folder ++ "/" ++ name

def await (h : Host σ π) (s : Settings) (program : π) : StateM σ (Except RunError Outcome) := do
  match ← h.wait program s.timeoutMs with
  | .finished f => return .ok f.outcome
  | .refused r => return .error (.host r)
  | .late => return .error (.late (s.timeoutMs.getD 0))

def runIn (h : Host σ π) (s : Settings) (folder document : String) :
    StateM σ (Except RunError Outcome) := do
  match ← h.writeFile (inside folder documentName) (Utf8.encode document.toList) with
  | .error r => return .error (.host r)
  | .ok () =>
    match ← h.start s.program (s.args ++ [documentName]) folder with
    | .error r => return .error (.notStarted s.program r)
    | .ok program => await h s program

def run (h : Host σ π) (s : Settings) (document : String) : StateM σ (Except RunError Outcome) := do
  let folder := inside s.folder (← h.freshName)
  match ← h.makeFolder folder with
  | .error r => return .error (.host r)
  | .ok () =>
    let result ← runIn h s folder document
    let _ ← h.removeFolder folder
    return result

def solve (h : Host σ π) (s : Settings) (document : String) : StateM σ Outcome := do
  match ← run h s document with
  | .ok o => return o
  | .error e => return .failure e.message ""

end Reasoner
end ConstraintDesk
