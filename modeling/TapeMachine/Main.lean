import TapeMachine.CommandLine.Command

/-!
# The command line program

Reads the file that the options name, if any, and the clock, and prints what the command comes to.
-/
namespace TapeMachine.CommandLine

/-- The number of a system error. It is reported as it is or negated, according to the call. -/
def errorNumber (code : UInt32) : Nat :=
  if code.toNat < 0x80000000 then code.toNat else 0x100000000 - code.toNat

def faultOfNumber (number : Nat) (details : String) : FileFault :=
  match number with
  | 2 => .missing
  | 20 => .notDirectory
  | 21 => .isDirectory
  | 36 => .nameTooLong
  | _ => .other number details

/-- The fault that an input error stands for. -/
def faultOfError : IO.Error → FileFault
  | .noFileOrDirectory _ code details | .inappropriateType _ code details
  | .permissionDenied _ code details | .invalidArgument _ code details =>
    faultOfNumber (errorNumber code) details
  | e => .other 5 (toString e)

/-- The one file a command reads, as the files it can read. -/
def readFiles (o : Options) : IO Files := do
  match o.file with
  | none => return fun _ => .error .missing
  | some path =>
    let content ←
      try pure (Except.ok (← IO.FS.readBinFile (Path.normal path)).toList)
      catch e => pure (Except.error (faultOfError e))
    return fun _ => content

/-- Nanoseconds as milliseconds with two places. -/
def milliseconds (nanoseconds : Nat) : String :=
  let hundredths := nanoseconds / 10000
  let part := toString (hundredths % 100)
  toString (hundredths / 100) ++ "." ++ (if part.length < 2 then "0" else "") ++ part

/-- More instructions than any run will be waited for. -/
def patience : Nat := 1 <<< 62

/-- Prints an outcome and gives the exit status. A refusal leaves the program as an error that
nothing catches, by its name and with no message of the command. -/
def finish (outcome : Outcome) : IO UInt32 := do
  IO.print outcome.stdout
  IO.eprint outcome.stderr
  match outcome.ending with
  | .exit status => return UInt32.ofNat status
  | .refused r => throw (IO.userError (r.name ++ ": " ++ r.message))

def runJob (o : Options) : IO UInt32 := do
  let start ← IO.monoNanosNow
  match o.prepare (← readFiles o) with
  | .error outcome => finish outcome
  | .ok job =>
    let compiled ← IO.monoNanosNow
    match job.run patience with
    | none => return 1
    | some reply =>
      let stopped ← IO.monoNanosNow
      finish (job.outcome ⟨milliseconds (compiled - start), milliseconds (stopped - compiled)⟩ reply)

end TapeMachine.CommandLine

open TapeMachine.CommandLine in
def main (arguments : List String) : IO UInt32 :=
  match parse arguments with
  | .options o => runJob o
  | .help => finish ⟨helpText, "", .exit 0⟩
  | .mistake text => finish ⟨"", mistakeText text, .exit 2⟩
