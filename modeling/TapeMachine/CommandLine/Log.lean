import TapeMachine.Program

/-!
# The log of a command

With logging on, a command tells on the error stream how its program came about and how the run
went, a line for each step.
-/
namespace TapeMachine.CommandLine

inductive Event where
  | condensed (before after : Nat) (level : Level)
  | linked (pairs instructions : Nat)
  | compiled (characters instructions : Nat)
  | queued (bytes : Nat)
  | loaded (instructions : Nat)
  | failed (fault : Fault)
  | completed (bytes : Nat)

namespace Event

/-- The part of the program an event belongs to. -/
def channel : Event → String
  | condensed .. => "bfvm.optimizer"
  | linked .. => "bfvm.linker"
  | compiled .. => "bfvm.compiler"
  | queued _ | loaded _ | failed _ | completed _ => "bfvm.vm"

def text : Event → String
  | condensed before after level =>
    "optimized " ++ toString before ++ " -> " ++ toString after ++ " instructions (level " ++
      toString level.toNat ++ ")"
  | linked pairs instructions =>
    "linked " ++ toString pairs ++ " loop pairs over " ++ toString instructions ++ " instructions"
  | compiled characters instructions =>
    "compiled " ++ toString characters ++ " characters into " ++ toString instructions ++
      " instructions"
  | queued bytes => "loaded input queue of " ++ toString bytes ++ " bytes"
  | loaded instructions => "loaded " ++ toString instructions ++ " instructions"
  | failed fault => "run failed: " ++ fault.name
  | completed bytes => "run completed with " ++ toString bytes ++ " output bytes"

def line (e : Event) : String := "DEBUG:" ++ e.channel ++ ":" ++ e.text ++ "\n"

end Event

def logText (events : List Event) : String := String.join (events.map Event.line)

/-- The events of a compilation, which stop where a fault was found. -/
def compilationEvents (source : String) (level : Level) : List Event :=
  match Compilation.ofSource source level with
  | .error _ => []
  | .ok c =>
    .condensed c.primitives.length c.condensed.length level ::
      match c.program with
      | .error _ => []
      | .ok program =>
        [.linked (program.countP fun x => x.side? = some .opening) program.length,
          .compiled source.length program.length]

/-- The events of a program's run on the input. -/
def runEvents (program : List Item) (bytes : Option (List UInt8)) (r : Session.Reply) : List Event :=
  (bytes.toList.map fun l => .queued l.length) ++ .loaded program.length ::
    match r.failure, r.session.output with
    | some (.fault fault), _ => [.failed fault]
    | none, some output => [.completed output.size]
    | _, _ => []

end TapeMachine.CommandLine
