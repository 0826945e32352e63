import ConstraintDesk.Desk.Submission
/-! What can be asked for: a check of the syntax, a check by the reasoner, another dialect, a solution.
Every request is answered; no failure leaves an operation. The reasoner is any function from the text of
a model to an outcome. In a session it gives prepared outcomes: the first one to the first call and so on,
and the last one to all later calls. -/
namespace ConstraintDesk

inductive ExecuteFormat where
  | html
  | json
  deriving DecidableEq, Repr

namespace ExecuteFormat

def all : List ExecuteFormat := [.html, .json]

def name : ExecuteFormat → String
  | .html => "html"
  | .json => "json"

def ofJson : Decoder ExecuteFormat := Decode.choice all name

end ExecuteFormat

inductive Response where
  | report (report : Report)
  | envelope (envelope : Envelope)

def Response.toJson : Response → Json
  | .report r => r.toJson
  | .envelope e => e.toJson

namespace Operations

def problem (e : SyntaxError) : Envelope := .problems [.errorAt e.mark e.reason]

def refusal (doing : String) : DocumentError → Envelope
  | .malformed e => problem e
  | e => .error s!"Error while {doing}: {e.message}"

def check (dialect content : String) : Envelope :=
  if content.isEmpty then .ok
  else match Dialect.ofName dialect with
    | .error e => .error e.message
    | .ok d =>
      match d.check content with
      | .ok _ => .ok
      | .error e => refusal "checking" e

variable {m : Type → Type} [Monad m] (solve : String → m Outcome)

def consistencyOf (s : Submission) : m Envelope :=
  if s.content.isEmpty then return .ok
  else match s.intermediate with
    | .error e => return refusal "checking consistency" e
    | .ok text => do
      let outcome ← solve text
      if outcome.isError then return .problems (s.remapErrors text outcome) else return .ok

def checkConsistency (dialect content : String) : m Envelope :=
  if content.isEmpty then return .ok
  else match Dialect.ofName dialect with
    | .error e => return .error e.message
    | .ok d => consistencyOf solve ⟨d, content⟩

def solved (content text : String) (format : ExecuteFormat) (outcome : Outcome) : Response :=
  if outcome.isError || format = .json then .report ⟨outcome, text⟩
  else .envelope ⟨.ok, some s!"<pre>{outcome.stdout}</pre>", some (.string content), none⟩

def execute (content : String) (format : ExecuteFormat) : m Response :=
  match (Submission.mk .yaml content).intermediate with
  | .error e => return .envelope (refusal "executing" e)
  | .ok text => do return solved content text format (← solve text)

end Operations

inductive Call where
  | check (dialect content : String)
  | consistency (dialect content : String)
  | convert (source destination content : String)
  | execute (content : String) (format : ExecuteFormat)

structure Replay where
  outcomes : List Outcome
  documents : List String

namespace Replay

def outcomeAt (outcomes : List Outcome) (index : Nat) : Outcome :=
  (outcomes[index]?.or outcomes.getLast?).getD ⟨none, "", "", false⟩

def solve (document : String) : StateM Replay Outcome := fun r =>
  (outcomeAt r.outcomes r.documents.length, { r with documents := r.documents ++ [document] })

end Replay

def Call.answer {m : Type → Type} [Monad m] (solve : String → m Outcome) : Call → m Response
  | .check dialect content => return .envelope (Operations.check dialect content)
  | .consistency dialect content =>
    return .envelope (← Operations.checkConsistency solve dialect content)
  | .convert source destination content =>
    return .envelope (Conversion.answer source destination content)
  | .execute content format => Operations.execute solve content format

namespace Session

structure Entry where
  response : Response
  documents : List String

def run (r : Replay) : List Call → List Entry
  | [] => []
  | c :: rest =>
    let (response, r') := (c.answer Replay.solve).run r
    ⟨response, r'.documents⟩ :: run r' rest

end Session
end ConstraintDesk
