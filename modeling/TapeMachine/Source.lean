import TapeMachine.Fault
import TapeMachine.Instruction

/-!
# Sources

Every character of a source is one primitive instruction. There are no comments and no blanks:
the first other character is a fault.
-/
namespace TapeMachine

/-- The primitive instruction a character stands for. -/
def Op.ofChar? : Char → Option Op
  | '+' => some (.add 1)
  | '-' => some (.add 255)
  | '>' => some (.move 1)
  | '<' => some (.move 65535)
  | ',' => some .input
  | '.' => some .output
  | '[' => some (.opening none)
  | ']' => some (.closing none)
  | _ => none

namespace Source

/-- The characters of a source with their 1-based positions. -/
def placed (source : String) : List (Char × Nat) := source.toList.zipIdx 1

/-- The first character that is no instruction. -/
def stranger? (source : String) : Option (Char × Nat) :=
  (placed source).find? fun (c, _) => (Op.ofChar? c).isNone

def instructions (source : String) : List Instruction :=
  (placed source).filterMap fun (c, position) => (Op.ofChar? c).map (⟨·, position⟩)

/-- The primitive instructions of a source, each at the position of its character. -/
def read (source : String) : Except Failure (List Instruction) :=
  match stranger? source with
  | some (c, position) =>
    .error (Fault.unknownCharacterIn source (String.singleton c) position).raised
  | none => .ok (instructions source)

end Source

end TapeMachine
