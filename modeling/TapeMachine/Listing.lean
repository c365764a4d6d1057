import TapeMachine.Cell
import TapeMachine.Instruction
import TapeMachine.Value.Written

/-!
# Listings

A listing has a row for each instruction of a program: its index, its source position and what
it does. Amounts are shown as the residue nearest to zero, with a sign. A program with a position
or a target too long to be written has no listing.
-/
namespace TapeMachine

namespace Op

/-- Where a bracket goes. -/
def targetText : Option Int → Except Refusal String
  | some target => decimalText target
  | none => .ok "None"

def describe : Op → Except Refusal String
  | .add delta => return "add " ++ (← signedText (Cell.signed delta))
  | .move offset => return "move " ++ (← signedText (Offset.signed offset))
  | .input => .ok "input"
  | .output => .ok "output"
  | .opening target => return "open -> " ++ (← targetText target)
  | .closing target => return "close -> " ++ (← targetText target)
  | .clear => .ok "clear"
  | .scanLeft => .ok "scan -1"
  | .scanRight => .ok "scan +1"
  | .drain step => return "drain " ++ (← signedText (Cell.signed step))
  | .transfer offset sourceDelta destDelta =>
    return "transfer [" ++ (← signedText (Offset.signed offset)) ++ "] src " ++
      (← signedText (Cell.signed sourceDelta)) ++ " dst " ++ (← signedText (Cell.signed destDelta))

end Op

def Item.describe : Item → Except Refusal String
  | .instr i => i.op.describe
  | .foreign v => .error v.unexpected

/-- As many spaces as a text is short of a width. -/
def padding (width : Nat) (s : String) : String :=
  String.ofList (List.replicate (width - s.length) ' ')

/-- A row: the index flush right and the position flush left in columns of six. -/
def Instruction.row (i : Instruction) (index : Nat) : Except Refusal String := do
  let indexText := toString index
  let positionText ← decimalText i.position
  return padding 6 indexText ++ indexText ++ "  @" ++ positionText ++ padding 6 positionText ++
    " " ++ (← i.op.describe)

def Item.row (x : Item) (index : Nat) : Except Refusal String :=
  match x with
  | .instr i => i.row index
  | .foreign v => .error (.noPosition v)

/-- The rows of a program, each on a line of its own. -/
def listing (program : List Item) : Except Refusal String :=
  (program.zipIdx.mapM fun (x, index) => Item.row x index).map "\n".intercalate

end TapeMachine
