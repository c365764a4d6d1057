import TapeMachine.Refusal
import TapeMachine.Value.Decimal

/-!
# The written form of a loose value

Messages show a loose value in full: texts quoted, lists between brackets, records as quoted
names with their values between braces. A value that holds an integer too long to be written has
no written form.
-/
namespace TapeMachine.Value

mutual

def written : Value → Except Refusal String
  | .absent => .ok "None"
  | .truth b => .ok (if b then "True" else "False")
  | .int n => decimalText n
  | .real x => .ok x.text
  | .text s => .ok (Text.quoted s)
  | .list values => (writtenAll values).map fun texts => "[" ++ ", ".intercalate texts ++ "]"
  | .record fields =>
    (writtenFields fields).map fun texts => "\x7b" ++ ", ".intercalate texts ++ "\x7d"

def writtenAll : List Value → Except Refusal (List String)
  | [] => .ok []
  | v :: rest => do return (← written v) :: (← writtenAll rest)

def writtenFields : List (String × Value) → Except Refusal (List String)
  | [] => .ok []
  | (name, v) :: rest => do
    return (Text.quoted name ++ ": " ++ (← written v)) :: (← writtenFields rest)

end

/-- The refusal of a value where an instruction has to stand. -/
def unexpected (v : Value) : Refusal :=
  match v.written with
  | .ok shown => .notInstruction shown
  | .error r => r

end TapeMachine.Value
