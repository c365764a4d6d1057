import TapeMachine.Cell
import TapeMachine.Instruction

/-!
# Loop idioms

A loop whose body is one step, or one step on each of two cells with the moves between them
cancelling, does what a single instruction does.
-/
namespace TapeMachine.Idiom

/-- The idiom of a loop around one step. Adding 1 or 255 reaches zero from every value. -/
def ofStep? : Op → Option Op
  | .add delta => some (if delta = 1 ∨ delta = 255 then .clear else .drain delta)
  | .move offset =>
    if offset = 1 then some .scanRight else if offset = 65535 then some .scanLeft else none
  | _ => none

/-- The transfer between a cell and the one `there` away, if the way back cancels. -/
def ofTrip? (sourceDelta there destDelta back : Int) : Option Op :=
  if Offset.wrap (there + back) = 0 then some (.transfer there sourceDelta destDelta) else none

/-- The idiom for a loop with the given body. -/
def ofBody? : List Item → Option Op
  | [.instr a] => ofStep? a.op
  | [.instr a, .instr b, .instr c, .instr d] =>
    match a.op, b.op, c.op, d.op with
    | .add source, .move there, .add dest, .move back => ofTrip? source there dest back
    | .move there, .add dest, .move back, .add source => ofTrip? source there dest back
    | _, _, _, _ => none
  | _ => none

end TapeMachine.Idiom
