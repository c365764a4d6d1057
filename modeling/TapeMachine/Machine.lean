import TapeMachine.Code
import TapeMachine.Tape

/-!
# The machine

The machine runs encoded programs. It knows nothing of input and output: an instruction that
needs the outside, and one that could never end, stops it with no effect of its own. Sums and
products of cells are taken in 64-bit words and then cut to eight bits.
-/
namespace TapeMachine

structure State where
  pc : Nat
  pointer : Nat
  tape : Tape

/-- Why the machine stopped at an instruction. -/
inductive Stop where
  /-- The end of the program. -/
  | ended
  | output
  | input
  /-- A bracket without a usable target. -/
  | unlinked
  /-- A scan on a tape without a zero cell. -/
  | fullTape
  /-- A scan by `step` that came back to its start past the zero cells. -/
  | missedZero (step : Int)
  /-- A drain or transfer of a cell that never becomes zero. -/
  | endless (value : UInt8)
  deriving DecidableEq

namespace Stop

/-- The number a stop is reported by. -/
def code : Stop → Nat
  | ended => 0
  | output => 1
  | input => 2
  | unlinked => 3
  | fullTape => 4
  | missedZero _ => 5
  | endless _ => 6

/-- The number that is reported with a stop. -/
def detail : Stop → Int
  | missedZero step => step
  | endless value => value.toNat
  | _ => 0

end Stop

/-- What became of one instruction: the machine went on to a state, or stopped in one. -/
inductive Progress where
  | next (s : State)
  | stopped (why : Stop) (s : State)

/-- A cell as a word. -/
def cellWord (v : UInt8) : Int64 := Int64.ofNat v.toNat

/-- The low eight bits of a word. -/
def wordCell (w : Int64) : UInt8 := w.toUInt64.toUInt8

namespace State

/-- The state at the instruction that follows. -/
def advance (s : State) : State := { s with pc := s.pc + 1 }

/-- Goes to a bracket if the current cell is zero or not, as `when` says, and on otherwise. -/
def jump (s : State) (target : Option Nat) (onZero : Bool) : Progress :=
  match target with
  | none => .stopped .unlinked s
  | some t => .next (if (s.tape.cell s.pointer == 0) = onZero then { s with pc := t } else s.advance)

/-- Scans if the current cell is not zero. A scan without an end keeps the machine where it is. -/
def scanBy (s : State) (step : Int) : Progress :=
  if s.tape.cell s.pointer = 0 then .next s.advance
  else
    match scan s.tape s.pointer step with
    | none => .next s
    | some (pointer, true) => .next { s with pc := s.pc + 1, pointer }
    | some (_, false) => .stopped (if s.tape.hasZero then .missedZero step else .fullTape) s

/-- Empties the current cell, unless `step` never takes it to zero. -/
def drain (s : State) (step : Int64) : Progress :=
  let value := s.tape.cell s.pointer
  if value = 0 then .next s.advance
  else
    match roundsToZero? value.toNat step.toInt with
    | none => .stopped (.endless value) s
    | some _ => .next ⟨s.pc + 1, s.pointer, s.tape.setIfInBounds s.pointer 0⟩

/-- Empties the current cell into another one, unless `sourceDelta` never takes it to zero. -/
def transfer (s : State) (offset sourceDelta destDelta : Int64) : Progress :=
  let value := s.tape.cell s.pointer
  if value = 0 then .next s.advance
  else
    match roundsToZero? value.toNat sourceDelta.toInt with
    | none => .stopped (.endless value) s
    | some count =>
      let dest := address s.tape.size (s.pointer + offset.toInt)
      let sum := cellWord (s.tape.cell dest) + Int64.ofNat count * destDelta
      let filled := s.tape.setIfInBounds dest (wordCell sum)
      .next ⟨s.pc + 1, s.pointer, filled.setIfInBounds s.pointer 0⟩

end State

/-- What a word does to the state in which it is met. -/
def Word.apply (w : Word) (s : State) : Progress :=
  match w with
  | .add delta =>
    let sum := cellWord (s.tape.cell s.pointer) + delta
    .next ⟨s.pc + 1, s.pointer, s.tape.setIfInBounds s.pointer (wordCell sum)⟩
  | .move offset =>
    .next ⟨s.pc + 1, address s.tape.size (s.pointer + offset.toInt), s.tape⟩
  | .input => .stopped .input s
  | .output => .stopped .output s
  | .opening target => s.jump target true
  | .closing target => s.jump target false
  | .clear => .next ⟨s.pc + 1, s.pointer, s.tape.setIfInBounds s.pointer 0⟩
  | .scanLeft => s.scanBy (-1)
  | .scanRight => s.scanBy 1
  | .drain step => s.drain step
  | .transfer offset sourceDelta destDelta => s.transfer offset sourceDelta destDelta

/-- One instruction of a program. -/
def step (code : Array Word) (s : State) : Progress :=
  match code[s.pc]? with
  | some w => w.apply s
  | none => .stopped .ended s

/-- Runs until a stop, for at most `budget` instructions. -/
def runToStop (code : Array Word) : Nat → State → Option (Stop × State)
  | 0, _ => none
  | budget + 1, s =>
    match step code s with
    | .next t => runToStop code budget t
    | .stopped why t => some (why, t)

end TapeMachine
