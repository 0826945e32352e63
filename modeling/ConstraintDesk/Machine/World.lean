import ConstraintDesk.Machine.Files
/-! The machine at work: its files, what can be read, what was written, and a clock. Time passes only
while a program sleeps. -/
namespace ConstraintDesk.Machine

structure Stream where
  ready : Bytes
  cycle : Bytes
  size : Option Nat

namespace Stream

def ofBytes (b : Bytes) : Stream := ⟨b, [], none⟩

def empty : Stream := ofBytes []

def isEndless (s : Stream) : Bool := !s.cycle.isEmpty

def fill (s : Stream) (n : Nat) : Bytes :=
  if s.cycle.isEmpty || n ≤ s.ready.length then s.ready
  else
    let rounds := (n - s.ready.length) / s.cycle.length + 1
    s.ready ++ (List.replicate rounds s.cycle).flatten

def take (s : Stream) (n : Nat) : Bytes × Stream :=
  let ready := s.fill n
  (ready.take n, { s with ready := ready.drop n })

end Stream

/-- What was written and when, the last piece first. What another program reads may go on for ever. -/
structure Sink where
  pieces : List (Nat × Bytes)
  cycle : Bytes
  isPipe : Bool

def Sink.bytes (s : Sink) : Bytes :=
  ((s.pieces.reverse.mergeSort fun a b => a.1 ≤ b.1).map (·.2)).flatten

inductive Channel where
  | nothing
  | stream (index : Nat)
  | sink (index : Nat)
  | file (place : Place)
  deriving DecidableEq

structure World where
  files : Files
  streams : Array Stream
  sinks : Array Sink
  now : Nat
  heldUntil : Nat
  deadline : Option Nat

inductive Halt where
  | stopped

abbrev Act := ExceptT Halt (StateM World)

namespace Act

def stop {α : Type} : Act α := throw .stopped

def sleep (micros : Nat) : Act Unit := do
  modify fun w => { w with now := w.now + micros }
  let w ← get
  if w.deadline.any (· ≤ w.now) then stop

def openStream (s : Stream) : Act Channel := do
  let n := (← get).streams.size
  modify fun w => { w with streams := w.streams.push s }
  return .stream n

def openSink (isPipe : Bool) : Act Nat := do
  let n := (← get).sinks.size
  modify fun w => { w with sinks := w.sinks.push ⟨[], [], isPipe⟩ }
  return n

def sinkAt (n : Nat) : Act Sink := return ((← get).sinks[n]?).getD ⟨[], [], false⟩

def write (channel : Channel) (b : Bytes) : Act (Except Refusal Unit) := do
  match channel with
  | .nothing => return .ok ()
  | .stream _ => return .error .badDescriptor
  | .sink n =>
    modify fun w =>
      { w with sinks := w.sinks.modify n fun s => { s with pieces := (w.now, b) :: s.pieces } }
    return .ok ()
  | .file p =>
    match (← get).files.write p b true with
    | .error r => return .error r
    | .ok files =>
      modify fun w => { w with files }
      return .ok ()

def writeEndless (channel : Channel) (cycle : Bytes) : Act Unit := do
  match channel with
  | .sink n =>
    if (← sinkAt n).isPipe then
      modify fun w => { w with sinks := w.sinks.modify n fun s => { s with cycle } }
    else stop
  | _ => stop

def peek (channel : Channel) : Act Stream := do
  match channel with
  | .stream n => return ((← get).streams[n]?).getD .empty
  | _ => return .empty

def setStream (channel : Channel) (s : Stream) : Act Unit := do
  match channel with
  | .stream n => modify fun w => { w with streams := w.streams.modify n fun _ => s }
  | _ => return ()

def takeAll (channel : Channel) : Act Stream := do
  let s ← peek channel
  setStream channel { s with ready := [], cycle := [] }
  return s

def take (channel : Channel) (n : Nat) : Act Bytes := do
  let (b, s) := (← peek channel).take n
  setStream channel s
  return b

def takeLine (channel : Channel) : Act Bytes := do
  let s ← peek channel
  let line := s.ready.takeWhile (· ≠ '\n')
  match s.ready.drop line.length with
  | _ :: rest =>
    setStream channel { s with ready := rest }
    return line ++ ['\n']
  | [] =>
    let more := s.cycle.takeWhile (· ≠ '\n')
    if s.isEndless && more.length = s.cycle.length then stop
    if s.isEndless then
      let (b, s) := s.take (line.length + more.length + 1)
      setStream channel s
      return b
    setStream channel { s with ready := [] }
    return line

end Act
end ConstraintDesk.Machine
