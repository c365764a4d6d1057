import TapeMachine.Refusal
import TapeMachine.Text.Excerpt

/-!
# Faults and failures

A `Fault` is a diagnosis this library makes: what is wrong with a source, why a run cannot go on,
or how a session was misused. A session remembers the fault of its run. A fault is reported with a
message that shows its numbers: `Fault.raised` is the failure that comes of it, the fault itself or,
if a number is too long to be written, the refusal of the message.
-/
namespace TapeMachine

/-- Calls that a session does not allow in the state it is in. -/
inductive Misuse where
  | secondProgram
  | secondInput
  | noProgram
  | noOutput
  | secondOutput
  deriving DecidableEq

inductive Fault where
  /-- A source character that is no instruction. -/
  | unknownCharacter (char : String) (position : Int) (excerpt : String)
  | unclosedLoop (position : Int) (excerpt : String)
  | unopenedLoop (position : Int) (excerpt : String)
  /-- Input was asked for in a run that was given none. -/
  | missingInput (position : Int)
  /-- A bracket was reached whose target is no bracket of the other side. -/
  | unlinkedBracket (position : Int)
  /-- The cell at `pointer` holds `value` and never becomes zero. -/
  | endlessDrain (position value pointer : Int)
  /-- A scan on a tape without a zero cell. -/
  | fullTape (position : Int)
  /-- A scan that came back to its start and missed the zero cells. -/
  | missedZero (position step : Int)
  | misuse (m : Misuse)
  /-- A command line without a program. -/
  | noSource
  | badByte (argument reason : String)
  deriving DecidableEq

/-- How the command line is to be used. -/
def usage : String :=
  "bfvm [options] <bf_code> [bf_args ...]\n\n" ++
  "Brainfuck interpreter.\n\n" ++
  "Arguments:\n" ++
  "  <bf_code>        Brainfuck code to be executed. Use only the following 8 instructions: +-.,[]<>\n" ++
  "                   (use `--` before code starting with '-')\n" ++
  "  [bf_args]        Pass a single string parameter to be converted into a collection of u8 characters (ascii).\n" ++
  "                   Pass a collection of u8 numbers (0 to 255)."

namespace Misuse

def name : Misuse → String
  | .secondProgram => "ProgramOverwrittenError"
  | .secondInput => "InputOverwrittenError"
  | .noProgram => "ProgramNotLoadedError"
  | .noOutput => "OutputUnavailableError"
  | .secondOutput => "OutputOverwrittenError"

def message : Misuse → String
  | .secondProgram => "Execution Error: Instructions cannot be overwritten"
  | .secondInput => "Execution Error: Input cannot be overwritten"
  | .noProgram => "Execution Error: Instructions not loaded"
  | .noOutput => "Execution Error: No code was executed"
  | .secondOutput => "Unexpected Error: Modifying output value"

end Misuse

namespace Fault

/-- The faults of a source: what they say, the excerpt unless the source is empty, and a hint. -/
def sourceMessage (text : String) (position : Int) (excerpt hint : String) :
    Except Refusal String := do
  return "CompileError: " ++ text ++ " (position " ++ (← decimalText position) ++ ")" ++
    (if excerpt.isEmpty then "" else "\n" ++ excerpt) ++ "\nHint: " ++ hint

def message : Fault → Except Refusal String
  | unknownCharacter char position excerpt =>
    sourceMessage ("Character instruction unknown: " ++ Text.quoted char) position excerpt
      "Only the eight characters +-<>,.[] are allowed. Whitespace and comments are not."
  | unclosedLoop position excerpt =>
    sourceMessage "Open loop does not match a closed loop" position excerpt
      "Check for a missing \"]\" after this \"[\"."
  | unopenedLoop position excerpt =>
    sourceMessage "Closed loop does not match an open loop" position excerpt
      "Check for an extra \"]\" or a missing \"[\" before it."
  | missingInput position => do
    return "ExecutionError: Missing arguments, input requested at position " ++
      (← decimalText position)
  | unlinkedBracket position => do
    return "ExecutionError: Unconnected loops, bracket at position " ++
      (← decimalText position) ++ " has no target"
  | endlessDrain position value pointer => do
    return "InfiniteLoop: An infinite loop has been found, at code position " ++
      (← decimalText position) ++ ", with a current value " ++ (← decimalText value) ++
      " in memory cell " ++ (← decimalText pointer)
  | fullTape position => do
    return "InfiniteLoop: Scan at code position " ++ (← decimalText position) ++
      " can never stop, every memory cell is non-zero"
  | missedZero position step => do
    return "InfiniteLoop: Scan at code position " ++ (← decimalText position) ++
      " wrapped around the tape with step " ++ (← signedText step) ++
      " without finding a zero cell"
  | misuse m => .ok m.message
  | noSource => .ok ("Usage: " ++ usage)
  | badByte argument reason => .ok ("Cannot parse argument `" ++ argument ++ "`: " ++ reason)

/-- The name a fault goes by in the log. -/
def name : Fault → String
  | unknownCharacter .. => "UnknownInstructionError"
  | unclosedLoop .. => "MalformedOpenLoopError"
  | unopenedLoop .. => "MalformedClosedLoopError"
  | missingInput .. => "MissingArgumentsError"
  | unlinkedBracket .. => "UnconnectedLoopsError"
  | endlessDrain .. => "InfiniteLoopFoundError"
  | fullTape .. => "InfiniteLoopMemoryFullError"
  | missedZero .. => "InfiniteLoopMovementError"
  | misuse m => m.name
  | noSource => "UsageError"
  | badByte .. => "ArgumentParseError"

/-! ## Faults of a source, with the excerpt that shows them -/

/-- How much of the source an excerpt shows on either side. -/
def excerptContext : Int := 20

def unknownCharacterIn (source char : String) (position : Int) : Fault :=
  unknownCharacter char position (Text.excerpt source position excerptContext)

def unclosedLoopIn (source : String) (position : Int) : Fault :=
  unclosedLoop position (Text.excerpt source position excerptContext)

def unopenedLoopIn (source : String) (position : Int) : Fault :=
  unopenedLoop position (Text.excerpt source position excerptContext)

end Fault

/-- The misuse that goes by a name. -/
def Misuse.named : String → Except Refusal Misuse
  | "program_overwritten" => .ok .secondProgram
  | "input_overwritten" => .ok .secondInput
  | "program_not_loaded" => .ok .noProgram
  | "output_unavailable" => .ok .noOutput
  | "output_overwritten" => .ok .secondOutput
  | name => .error (.unknownMisuse name)

/-- Why an operation did not give a result. -/
inductive Failure where
  | fault (f : Fault)
  | refusal (r : Refusal)

/-- The fault that is at the bottom of a failure. -/
def Failure.fault? : Failure → Option Fault
  | .fault f => some f
  | .refusal _ => none

/-- What a failure that is handled says. A refusal is not handled. -/
def Failure.message : Failure → Except Refusal String
  | .fault f => f.message
  | .refusal r => .error r

/-- The failure that comes of a fault. -/
def Fault.raised (f : Fault) : Failure :=
  match f.message with
  | .ok _ => .fault f
  | .error r => .refusal r

end TapeMachine
