import TapeMachine.Compilation
import TapeMachine.Session
import TapeMachine.Text.Lines

/-!
# Running a source in one go

A source or the content of a file is compiled, and a program runs in a session of its own on
input given in reading order.
-/
namespace TapeMachine

/-- The text of a file: its bytes decoded and its line ends made uniform. -/
def fileText (content : List UInt8) : Except Utf8.Breach String :=
  (Utf8.decode content).map fun s => String.ofList (Text.uniformLines s.toList)

/-- The linked program of a source, at the level a request stands for. -/
def compileAt (source : String) (request : Value) : Except Failure (List Item) := do
  let level ← (Level.requested request).mapError .refusal
  compile source level

/-- The linked program of a file. -/
def compileContent (content : List UInt8) (request : Value) : Except Failure (List Item) := do
  let source ← (fileText content).mapError fun breach => .refusal (.undecodable breach)
  compileAt source request

/-- Input as it is handed in, in reading order. -/
inductive Input where
  | absent
  | text (s : String)
  | values (l : List Int)

/-- The bytes of an input. -/
def Input.bytes : Input → Except Refusal (Option (List UInt8))
  | .absent => .ok none
  | .text s => .ok (some (Utf8.encode s))
  | .values l => (l.mapM (Session.byte .inputRange)).map some

/-- The queue from which a session reads the bytes in the given order. -/
def queueOf (bytes : List UInt8) : List Int := bytes.reverse.map fun b => (b.toNat : Int)

/-- Runs a program on input in reading order, in a session of its own. -/
def runProgram (budget : Nat) (program : List Item) (bytes : Option (List UInt8)) :
    Option Session.Reply :=
  Session.new.execute budget program (bytes.map queueOf)

/-- What a run that reached its end gives. -/
structure Result where
  output : Array UInt8
  text : String
  /-- The length of the program. -/
  instructions : Nat

/-- The result of a program's run, from the session it ran in. -/
def Result.ofReply (program : List Item) (r : Session.Reply) : Except Failure Result := do
  if let some e := r.failure then throw e
  return ⟨← r.session.readOutput, ← r.session.readText, program.length⟩

/-- Compiles a source and runs it. There is no answer if the run takes more than `budget`
instructions. -/
def runSource (budget : Nat) (source : String) (input : Input) (request : Value) :
    Option (Except Failure Result) :=
  let prepared : Except Failure (List Item × Option (List UInt8)) := do
    let program ← compileAt source request
    let bytes ← input.bytes.mapError .refusal
    return (program, bytes)
  match prepared with
  | .error e => some (.error e)
  | .ok (program, bytes) => (runProgram budget program bytes).map (Result.ofReply program)

end TapeMachine
