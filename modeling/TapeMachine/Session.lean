import TapeMachine.Run
import TapeMachine.Text.Utf8

/-!
# Sessions

A session takes one program and one input, runs once, and keeps what came of it: the output of a
run that reached its end, or else its fault. Output exists only after such a run. The queue of
input bytes is handed over with the byte to be read first at its end.

A run that ends with a fault that cannot be reported is cut short: the session keeps no fault, but
the tape, the pointer and the feed are as the run left them, and a later run works on them.
-/
namespace TapeMachine

/-- How far a session has come. -/
inductive Stage where
  | uninitialized
  | loaded
  | completed
  | failed
  deriving DecidableEq

def Stage.name : Stage → String
  | .uninitialized => "UNINITIALIZED"
  | .loaded => "LOADED"
  | .completed => "COMPLETED"
  | .failed => "FAILED"

structure Session where
  program : Option (List Item)
  feed : Feed
  output : Option (Array UInt8)
  fault : Option Fault
  tape : Tape
  pointer : Nat

namespace Session

def new : Session := ⟨none, .absent, none, none, .blank, 0⟩

def stage (s : Session) : Stage :=
  if s.fault.isSome then .failed
  else if s.output.isSome then .completed
  else if s.program.isSome then .loaded
  else .uninitialized

/-- Whether the session has run to an end, good or bad. -/
def isOver (s : Session) : Bool := s.stage = .completed || s.stage = .failed

def misused {α : Type} (m : Misuse) : Except Failure α := .error (.fault (.misuse m))

def loadProgram (s : Session) (program : List Item) : Except Failure Session :=
  if s.program.isSome then misused .secondProgram else .ok { s with program := some program }

/-- The byte with a value, or the refusal if there is none. -/
def byte (r : Refusal) (n : Int) : Except Refusal UInt8 :=
  if 0 ≤ n ∧ n < 256 then .ok (UInt8.ofNat n.toNat) else .error r

def loadInput (s : Session) (queue : List Int) : Except Failure Session :=
  if s.feed.unread.isSome || s.isOver then misused .secondInput
  else
    match queue.mapM (byte .queueRange) with
    | .error r => .error (.refusal r)
    | .ok bytes => .ok { s with feed := ⟨some bytes.reverse, false⟩ }

/-- Loads the input, if there is one. -/
def loadQueue (s : Session) : Option (List Int) → Except Failure Session
  | some queue => s.loadInput queue
  | none => .ok s

def setOutput (s : Session) (output : Array UInt8) : Except Failure Session :=
  if s.output.isSome then misused .secondOutput else .ok { s with output := some output }

/-- What a call leaves: the session after it, and its failure. -/
structure Reply where
  session : Session
  failure : Option Failure

/-- The reply of a call that changes nothing when it fails. -/
def Reply.of (s : Session) : Except Failure Session → Reply
  | .ok t => ⟨t, none⟩
  | .error e => ⟨s, some e⟩

/-- Loads the input and then the program. Input that was taken stays when the program is not. -/
def load (s : Session) (program : List Item) (queue : Option (List Int)) : Reply :=
  match s.loadQueue queue with
  | .error e => ⟨s, some e⟩
  | .ok t => .of t (t.loadProgram program)

/-- The session with what a run left of its feed, its tape and its pointer. -/
def after (s : Session) (r : Run) : Session :=
  { s with feed := r.feed, tape := r.state.tape, pointer := r.state.pointer }

/-- What a finished run leaves in its session. Of a failure it keeps the fault, if there is one. -/
def settle (s : Session) (f : Finish) : Reply :=
  let after := s.after f.run
  match f.failure with
  | some e => ⟨{ after with fault := e.fault? }, some e⟩
  | none => .of after (after.setOutput f.run.output)

/-- Runs the program to its end, unless that takes more than `budget` instructions. A session that
has an output or a fault does not run again, and repeats the fault. A program that cannot be
encoded does not run. -/
def run (budget : Nat) (s : Session) : Option Reply :=
  match s.output, s.fault, s.program with
  | some _, _, _ => some ⟨s, none⟩
  | none, some fault, _ => some ⟨s, some (.fault fault)⟩
  | none, none, none => some ⟨s, some (.fault (.misuse .noProgram))⟩
  | none, none, some program =>
    match encode program with
    | .error r => some ⟨s, some (.refusal r)⟩
    | .ok code => (Run.finish program.toArray code budget (Run.start s.tape s.feed)).map s.settle

/-- Loads and runs. -/
def execute (budget : Nat) (s : Session) (program : List Item) (queue : Option (List Int)) :
    Option Reply :=
  let loaded := s.load program queue
  match loaded.failure with
  | some _ => some loaded
  | none => loaded.session.run budget

def readOutput (s : Session) : Except Failure (Array UInt8) :=
  match s.output with
  | some output => .ok output
  | none => misused .noOutput

/-- The output as text. -/
def readText (s : Session) : Except Failure String :=
  s.readOutput.map fun output => Utf8.decodeLossy output.toList

end Session

/-! ## Calls -/

/-- A call on a session. -/
inductive Call where
  | loadProgram (program : List Item)
  | loadInput (queue : List Int)
  | load (program : List Item) (queue : Option (List Int))
  | execute (program : List Item) (queue : Option (List Int))
  | run
  | output
  | text
  | pointer
  | memory

/-- What a call returns. -/
inductive Answer where
  | done
  | bytes (output : Array UInt8)
  | text (s : String)
  | pointer (p : Nat)
  | memory (tape : Tape)

namespace Session

def Reply.answer (r : Reply) : Session × Except Failure Answer :=
  match r.failure with
  | some e => (r.session, .error e)
  | none => (r.session, .ok .done)

/-- Makes a call. There is no answer if a run takes more than `budget` instructions. -/
def perform (budget : Nat) (s : Session) : Call → Option (Session × Except Failure Answer)
  | .loadProgram program => some (Reply.of s (s.loadProgram program)).answer
  | .loadInput queue => some (Reply.of s (s.loadInput queue)).answer
  | .load program queue => some (s.load program queue).answer
  | .execute program queue => (s.execute budget program queue).map Reply.answer
  | .run => (s.run budget).map Reply.answer
  | .output => some (s, s.readOutput.map .bytes)
  | .text => some (s, s.readText.map .text)
  | .pointer => some (s, .ok (.pointer s.pointer))
  | .memory => some (s, .ok (.memory s.tape))

end Session

end TapeMachine
