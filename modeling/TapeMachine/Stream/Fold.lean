import TapeMachine.Cell
import TapeMachine.Instruction

/-!
# Folded streams

Neighbouring additions make one addition and neighbouring moves one move, reduced to a residue.
A run that cancels disappears, and its neighbours become neighbours of each other. It leaves
its position behind: the next step of the same kind counts as starting where the run began.
-/
namespace TapeMachine

/-- What a step acts on: the current cell or the pointer. -/
inductive Axis where
  | cell
  | pointer
  deriving DecidableEq

namespace Axis

def wrap : Axis → Int → Int
  | cell => Cell.wrap
  | pointer => Offset.wrap

/-- The step of the given amount. -/
def step : Axis → Int → Op
  | cell => .add
  | pointer => .move

end Axis

/-- A step along an axis. -/
def Op.step? : Op → Option (Axis × Int)
  | .add delta => some (.cell, delta)
  | .move offset => some (.pointer, offset)
  | _ => none

/-- A stream folded as far as it has been read. -/
structure Folder where
  /-- The folded items, the last one first. -/
  out : List Item
  /-- The axis and the first position of a run that has just cancelled. -/
  cancelled : Option (Axis × Int)

namespace Folder

def empty : Folder := ⟨[], none⟩

/-- Where a step starts that has no run of its kind before it. -/
def start (f : Folder) (axis : Axis) (position : Int) : Int :=
  match f.cancelled with
  | some (a, first) => if a = axis then first else position
  | none => position

/-- The run of an axis that ends the folded items: its amount, its position and the items before it. -/
def lastRun? (axis : Axis) : List Item → Option (Int × Int × List Item)
  | .instr ⟨op, position⟩ :: rest =>
    match op.step? with
    | some (a, amount) => if a = axis then some (amount, position, rest) else none
    | none => none
  | _ => none

/-- Puts the run of an amount behind the items, or drops it if it cancels. -/
def settle (axis : Axis) (amount position : Int) (out : List Item) : Folder :=
  if amount = 0 then ⟨out, some (axis, position)⟩
  else ⟨.instr ⟨axis.step amount, position⟩ :: out, none⟩

def pushStep (f : Folder) (axis : Axis) (amount position : Int) : Folder :=
  let amount := axis.wrap amount
  match lastRun? axis f.out with
  | some (before, first, rest) => settle axis (axis.wrap (amount + before)) first rest
  | none => settle axis amount (f.start axis position) f.out

def push (f : Folder) (x : Item) : Folder :=
  match x with
  | .instr ⟨op, position⟩ =>
    match op.step? with
    | some (axis, amount) => f.pushStep axis amount position
    | none => ⟨x :: f.out, none⟩
  | .foreign _ => ⟨x :: f.out, none⟩

end Folder

/-- The stream with its runs folded and its brackets unlinked. -/
def foldSteps (stream : List Item) : List Item :=
  (stream.foldl (fun f x => f.push x.unlinked) Folder.empty).out.reverse

end TapeMachine
