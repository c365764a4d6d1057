import TapeMachine.Stream.Link
import TapeMachine.Value.Written

/-!
# Encoded programs

A program is encoded before it runs: numeric fields become signed 64-bit words, and a bracket
keeps its target only if that is a bracket of the other side. The encoding can be laid out as four
columns of integers, and read back from them.
-/
namespace TapeMachine

/-- An encoded instruction. -/
inductive Word where
  | add (delta : Int64)
  | move (offset : Int64)
  | input
  | output
  | opening (target : Option Nat)
  | closing (target : Option Nat)
  | clear
  | scanLeft
  | scanRight
  | drain (step : Int64)
  | transfer (offset sourceDelta destDelta : Int64)
  deriving DecidableEq

/-- A field as a word, if it fits. -/
def word (n : Int) : Except Refusal Int64 :=
  if Int64.minValue.toInt ≤ n ∧ n ≤ Int64.maxValue.toInt then .ok (Int64.ofInt n)
  else .error .wideField

/-- The target of a bracket on the given side, if it can be used. -/
def usableTarget? (items : Array Item) (side : Side) (target : Option Int) : Option Nat :=
  target.bind fun t =>
    match itemAt? items t with
    | some partner => if partner.side? = some side.opposite then some t.toNat else none
    | none => none

/-- The encoding of an instruction that stands among the given items. -/
def Op.encode (items : Array Item) : Op → Except Refusal Word
  | .add delta => (word delta).map .add
  | .move offset => (word offset).map .move
  | .input => .ok .input
  | .output => .ok .output
  | .opening target => .ok (.opening (usableTarget? items .opening target))
  | .closing target => .ok (.closing (usableTarget? items .closing target))
  | .clear => .ok .clear
  | .scanLeft => .ok .scanLeft
  | .scanRight => .ok .scanRight
  | .drain step => (word step).map .drain
  | .transfer offset sourceDelta destDelta => do
    return .transfer (← word offset) (← word sourceDelta) (← word destDelta)

def Item.encode (items : Array Item) : Item → Except Refusal Word
  | .instr i => i.op.encode items
  | .foreign v => .error v.unexpected

/-- The encoded program. The first item that cannot be encoded is reported. -/
def encode (program : List Item) : Except Refusal (Array Word) :=
  (program.mapM (Item.encode program.toArray)).map List.toArray

/-! ## Columns -/

/-- An encoded instruction as a number for what it does and three arguments. -/
structure Row where
  op : Int
  a : Int
  b : Int
  c : Int
  deriving DecidableEq

/-- A target as an argument, with -1 for none. -/
def targetArgument : Option Nat → Int
  | some target => target
  | none => -1

def Word.row : Word → Row
  | .add delta => ⟨0, delta.toInt, 0, 0⟩
  | .move offset => ⟨1, offset.toInt, 0, 0⟩
  | .input => ⟨2, 0, 0, 0⟩
  | .output => ⟨3, 0, 0, 0⟩
  | .opening target => ⟨4, targetArgument target, 0, 0⟩
  | .closing target => ⟨5, targetArgument target, 0, 0⟩
  | .clear => ⟨6, 0, 0, 0⟩
  | .scanLeft => ⟨7, 0, 0, 0⟩
  | .scanRight => ⟨8, 0, 0, 0⟩
  | .drain step => ⟨9, step.toInt, 0, 0⟩
  | .transfer offset sourceDelta destDelta =>
    ⟨10, offset.toInt, sourceDelta.toInt, destDelta.toInt⟩

/-- The four columns of an encoded program. -/
structure Columns where
  ops : List Int
  argA : List Int
  argB : List Int
  argC : List Int

def columns (code : Array Word) : Columns :=
  let rows := code.toList.map Word.row
  ⟨rows.map Row.op, rows.map Row.a, rows.map Row.b, rows.map Row.c⟩

/-- The target an argument stands for. -/
def argumentTarget (a : Int) : Option Int := if a < 0 then none else some a

/-- What the instruction in a row does. -/
def Row.op? (r : Row) : Option Op :=
  match r.op with
  | 0 => some (.add r.a)
  | 1 => some (.move r.a)
  | 2 => some .input
  | 3 => some .output
  | 4 => some (.opening (argumentTarget r.a))
  | 5 => some (.closing (argumentTarget r.a))
  | 6 => some .clear
  | 7 => some .scanLeft
  | 8 => some .scanRight
  | 9 => some (.drain r.a)
  | 10 => some (.transfer r.a r.b r.c)
  | _ => none

/-- The rows of four columns, cut at the shortest. -/
def Columns.rows (c : Columns) : List Row :=
  (c.ops.zip (c.argA.zip (c.argB.zip c.argC))).map fun (op, a, b, c) => ⟨op, a, b, c⟩

/-- What the instructions in the columns do. -/
def Columns.decode (c : Columns) : Option (List Op) := c.rows.mapM Row.op?

end TapeMachine
