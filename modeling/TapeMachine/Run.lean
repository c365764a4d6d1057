import TapeMachine.Machine

/-!
# Runs

A run is the machine at work with the outside attached: a feed of input bytes and the bytes put
out so far. Output and input stops are served and the machine goes on; any other stop ends the
run, with a failure unless it is the end of the program.
-/
namespace TapeMachine

/-- The input of a run. -/
structure Feed where
  /-- The bytes not read yet, the next one first. None if no input was supplied. -/
  unread : Option (List UInt8)
  /-- Whether a byte was asked for when none was left. -/
  exhausted : Bool
  deriving DecidableEq

def Feed.absent : Feed := ⟨none, false⟩

/-- The next byte, and zero once the bytes are used up. There is none if no input was supplied. -/
def Feed.next? (f : Feed) : Option (UInt8 × Feed) :=
  match f.unread with
  | none => none
  | some [] => some (0, { f with exhausted := true })
  | some (b :: rest) => some (b, { f with unread := some rest })

structure Run where
  state : State
  feed : Feed
  output : Array UInt8

/-- A run at rest: what is left of it, and the failure that ended it. -/
structure Finish where
  run : Run
  failure : Option Failure

/-- What became of one turn of a run. -/
inductive Turn where
  | next (r : Run)
  | finished (f : Finish)

/-- The source position of the instruction at an index. -/
def positionAt (program : Array Item) (index : Nat) : Int :=
  match program[index]? with
  | some (.instr i) => i.position
  | _ => 0

namespace Run

/-- The fault of a stop that is neither an end nor a request. -/
def faultOf (stop : Stop) (position : Int) (pointer : Nat) : Option Fault :=
  match stop with
  | .ended | .output | .input => none
  | .unlinked => some (.unlinkedBracket position)
  | .fullTape => some (.fullTape position)
  | .missedZero step => some (.missedZero position step)
  | .endless value => some (.endlessDrain position value.toNat pointer)

/-- Puts out the current cell. -/
def write (r : Run) : Run :=
  ⟨r.state.advance, r.feed, r.output.push (r.state.tape.cell r.state.pointer)⟩

/-- Reads the next byte into the current cell. -/
def read (r : Run) (position : Int) : Turn :=
  match r.feed.next? with
  | none => .finished ⟨r, some (Fault.missingInput position).raised⟩
  | some (b, feed) =>
    let ⟨⟨pc, pointer, tape⟩, _, output⟩ := r
    .next ⟨⟨pc + 1, pointer, tape.setIfInBounds pointer b⟩, feed, output⟩

/-- One instruction of a run. -/
def turn (program : Array Item) (code : Array Word) (r : Run) : Turn :=
  let ⟨s, feed, output⟩ := r
  match step code s with
  | .next t => .next ⟨t, feed, output⟩
  | .stopped .output t => .next (Run.write ⟨t, feed, output⟩)
  | .stopped .input t => Run.read ⟨t, feed, output⟩ (positionAt program t.pc)
  | .stopped why t =>
    .finished ⟨⟨t, feed, output⟩, (faultOf why (positionAt program t.pc) t.pointer).map Fault.raised⟩

/-- Runs to the end, for at most `budget` instructions. -/
def finish (program : Array Item) (code : Array Word) : Nat → Run → Option Finish
  | 0, _ => none
  | budget + 1, r =>
    match turn program code r with
    | .next t => finish program code budget t
    | .finished f => some f

/-- The start of a run on a tape. -/
def start (tape : Tape) (feed : Feed) : Run := ⟨⟨0, 0, tape⟩, feed, #[]⟩

end Run

end TapeMachine
