import TapeMachine.ByteArgument
import TapeMachine.CommandLine.Log
import TapeMachine.CommandLine.Options
import TapeMachine.Directory
import TapeMachine.Listing

/-!
# Commands

A command compiles a program from a file or from its first argument, decodes the other arguments
as input, runs the program and prints the output as text and as bytes. What it prints and how it
ends is a value here, so that nothing depends on the world but the files it can read and how
long its two stages take.
-/
namespace TapeMachine.CommandLine

/-- How a command ends: with a status, or with a refusal that nothing handles. -/
inductive Ending where
  | exit (status : Nat)
  | refused (r : Refusal)

structure Outcome where
  stdout : String
  stderr : String
  ending : Ending

/-- How long the stages of a command took, in milliseconds. -/
structure Clock where
  compilation : String
  execution : String

def helpText : String :=
  "usage: " ++ usage ++ "\n\n" ++
  "options:\n" ++
  "  -h, --help     show this help message and exit\n" ++
  "  --file FILE    Read the program from a file instead of the first argument\n" ++
  "  --level LEVEL  Optimization level 0..2\n" ++
  "  --dump         Print the linked instruction listing\n" ++
  "  --stats        Print compile/execution timings to stderr\n" ++
  "  --verbose      Enable debug logging on stderr\n"

def mistakeText (text : String) : String :=
  "usage: " ++ usage ++ "\nbfvm: error: " ++ text ++ "\n"

/-- The outcome of a command whose failure comes after it has printed something. -/
def failed (stdout stderr : String) (e : Failure) : Outcome :=
  match e.message with
  | .ok text => ⟨stdout, stderr ++ text ++ "\n", .exit 1⟩
  | .error r => ⟨stdout, stderr, .refused r⟩

/-- A program ready to run, with what has been printed so far. -/
structure Job where
  options : Options
  program : List Item
  bytes : Option (List UInt8)
  stdout : String
  stderr : String

abbrev Files := String → Except FileFault (List UInt8)

/-- The source of a command's program and the arguments left for its input. -/
def source (files : Files) (o : Options) : Except Outcome (String × List String) :=
  match o.file.filter (· ≠ ""), o.items with
  | some path, items =>
    if path.contains '\x00' then .error (failed "" "" (.refusal .nulInName))
    else
      let path := Path.normal path
      match files path with
      | .error f => .error ⟨"", "Couldn't read file: " ++ f.message path ++ "\n", .exit 1⟩
      | .ok content =>
        match fileText content with
        | .error breach => .error (failed "" "" (.refusal (.undecodable breach)))
        | .ok text => .ok (text, items)
  | none, text :: items => .ok (text, items)
  | none, [] => .error (failed "" "" (.fault .noSource))

/-- The listing that is printed before the run. -/
def Options.dumpText (o : Options) (program : List Item) : Except Refusal String :=
  if o.dump then (listing program).map (· ++ "\n") else .ok ""

/-- Compiles the program, decodes its input and lists it. -/
def Options.prepare (o : Options) (files : Files) : Except Outcome Job := do
  let (text, items) ← source files o
  let level := Level.ofInt o.level
  let stderr := if o.verbose then logText (compilationEvents text level) else ""
  let program ← (compile text level).mapError fun e => failed "" stderr e
  let bytes ← (ByteArgument.input items).mapError fun e => failed "" stderr e
  let stdout ← (o.dumpText program).mapError fun r => failed "" stderr (.refusal r)
  return ⟨o, program, bytes, stdout, stderr⟩

namespace Job

def run (budget : Nat) (job : Job) : Option Session.Reply :=
  runProgram budget job.program job.bytes

def statsText (job : Job) (clock : Clock) : String :=
  if job.options.stats then
    "Compilation took " ++ clock.compilation ++ " ms (" ++ toString job.program.length ++
      " instructions, " ++ toString (job.program.countP Item.isIdiom) ++ " idioms)\n" ++
      "Execution took " ++ clock.execution ++ " ms\n"
  else ""

/-- The output as text between quotes and as a list of bytes. -/
def resultText (r : Result) : String :=
  "\"" ++ r.text ++ "\" [" ++ ", ".intercalate (r.output.toList.map fun b => toString b.toNat) ++ "]\n"

/-- The outcome of the job, from the session it ran in. -/
def outcome (job : Job) (clock : Clock) (r : Session.Reply) : Outcome :=
  let log := if job.options.verbose then logText (runEvents job.program job.bytes r) else ""
  let stderr := job.stderr ++ log
  match Result.ofReply job.program r with
  | .error e => failed job.stdout stderr e
  | .ok result => ⟨job.stdout ++ resultText result, stderr ++ job.statsText clock, .exit 0⟩

end Job

/-- What a command line does with the files it can read. There is no outcome if the run takes more
than `budget` instructions. -/
def answer (clock : Clock) (budget : Nat) (files : Files) (arguments : List String) :
    Option Outcome :=
  match parse arguments with
  | .help => some ⟨helpText, "", .exit 0⟩
  | .mistake text => some ⟨"", mistakeText text, .exit 2⟩
  | .options o =>
    match o.prepare files with
    | .error outcome => some outcome
    | .ok job => (job.run budget).map (job.outcome clock)

end TapeMachine.CommandLine
