import ConstraintDesk.Machine.Bytes
/-! Scripts of the command language: words that are still to be expanded, and commands made of them. -/
namespace ConstraintDesk.Shell

open Machine

inductive Modifier where
  | plain
  | length
  | default (unsetOnly : Bool)
  | assigned (unsetOnly : Bool)
  | alternative (unsetOnly : Bool)
  | required (unsetOnly : Bool)
  | withoutFront (longest : Bool)
  | withoutBack (longest : Bool)
  | unknown
  deriving DecidableEq, Repr

def Modifier.takesPattern : Modifier → Bool
  | .withoutFront _ | .withoutBack _ => true
  | _ => false

inductive Source (word : Type) where
  | file (path : word)
  | channel (number : word)
  | document (text : word)

inductive Direction where
  | input
  | output
  | append
  deriving DecidableEq, Repr

structure Redirection (word : Type) where
  channel : Nat
  direction : Direction
  source : Source word

mutual

inductive Piece where
  | text (quoted : Bool) (value : Bytes)
  | parameter (quoted : Bool) (name : Bytes) (modifier : Modifier) (argument : List Piece)
  | output (quoted : Bool) (script : Command)
  | arithmetic (quoted : Bool) (expression : List Piece)

inductive Command where
  | nothing
  | simple (line : Nat) (assignments : List (Bytes × List Piece)) (words : List (List Piece))
      (redirections : List (Redirection (List Piece)))
  | redirected (body : Command) (redirections : List (Redirection (List Piece)))
  | sequence (first second : Command)
  | both (first second : Command)
  | either (first second : Command)
  | negated (body : Command)
  | background (body : Command)
  | pipe (first second : Command)
  | subshell (body : Command)
  | choice (condition yes no : Command)
  | loop (stopOn : Bool) (condition body : Command)
  | each (name : Bytes) (words : Option (List (List Piece))) (body : Command)
  | cases (subject : List Piece) (branches : List (List (List Piece) × Command))
  | function (name : Bytes) (body : Command)

end

abbrev Word := List Piece

end ConstraintDesk.Shell
