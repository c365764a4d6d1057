import TapeMachine.Value

/-!
# Instructions

The instructions of the machine, the six primitive ones and the five idioms that stand for
whole loops. Each carries the 1-based position of the source character it began at. Numeric
fields are integers of any size; which residue they stand for is for the reader of the field.
-/
namespace TapeMachine

/-- What an instruction does. -/
inductive Op where
  | add (delta : Int)
  | move (offset : Int)
  | input
  | output
  /-- Start of a loop. The target is the index of the bracket that ends it. -/
  | opening (target : Option Int)
  /-- End of a loop. The target is the index of the bracket that starts it. -/
  | closing (target : Option Int)
  | clear
  | scanLeft
  | scanRight
  /-- Add `step` until the cell is zero. -/
  | drain (step : Int)
  /-- While the cell is not zero, add `sourceDelta` to it and `destDelta` to the cell `offset` away. -/
  | transfer (offset sourceDelta destDelta : Int)
  deriving DecidableEq

structure Instruction where
  op : Op
  position : Int
  deriving DecidableEq

/-- An entry of an instruction stream. Streams may carry values that are no instructions:
condensing and linking let them through, encoding refuses them. -/
inductive Item where
  | instr (i : Instruction)
  | foreign (v : Value)
  deriving BEq

/-- The two ends of a loop. -/
inductive Side where
  | opening
  | closing
  deriving DecidableEq

def Side.opposite : Side → Side
  | .opening => .closing
  | .closing => .opening

namespace Op

/-- The end of a loop that an instruction marks. -/
def side? : Op → Option Side
  | .opening _ => some .opening
  | .closing _ => some .closing
  | _ => none

def target? : Op → Option Int
  | .opening t => t
  | .closing t => t
  | _ => none

/-- Sends a bracket to `target` and leaves any other instruction alone. -/
def retarget (target : Option Int) : Op → Op
  | .opening _ => .opening target
  | .closing _ => .closing target
  | op => op

/-- Whether the instruction is one of the loop idioms. -/
def isIdiom : Op → Bool
  | .clear | .scanLeft | .scanRight | .drain _ | .transfer _ _ _ => true
  | _ => false

end Op

namespace Item

def op? : Item → Option Op
  | .instr i => some i.op
  | .foreign _ => none

def side? (x : Item) : Option Side := x.op?.bind Op.side?

def target? (x : Item) : Option Int := x.op?.bind Op.target?

def retarget (target : Option Int) : Item → Item
  | .instr i => .instr { i with op := i.op.retarget target }
  | .foreign v => .foreign v

/-- The item with no jump target. -/
def unlinked : Item → Item := retarget none

/-- The source position of an instruction, and 0 for anything else. -/
def position : Item → Int
  | .instr i => i.position
  | .foreign _ => 0

def isBracket (x : Item) : Bool := x.side?.isSome

def isIdiom (x : Item) : Bool := x.op?.any Op.isIdiom

end Item

end TapeMachine
