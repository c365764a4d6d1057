import TapeMachine.Level
import TapeMachine.Source
import TapeMachine.Stream.Link
import TapeMachine.Stream.Condense

/-!
# Compilation

A source is read, condensed up to a level and linked. All faults of a source are found here,
before anything runs.
-/
namespace TapeMachine

/-- A source that could be read, with what became of it. -/
structure Compilation where
  primitives : List Item
  condensed : List Item
  program : Except Failure (List Item)

namespace Compilation

def ofSource (source : String) (level : Level) : Except Failure Compilation :=
  (Source.read source).map fun instructions =>
    let primitives := instructions.map Item.instr
    let condensed := condense level primitives
    ⟨primitives, condensed, link source condensed⟩

end Compilation

/-- The linked program of a source. -/
def compile (source : String) (level : Level) : Except Failure (List Item) := do
  let c ← Compilation.ofSource source level
  c.program

/-- A compiler with a level of its own, which remembers the last source it could read. -/
structure Compiler where
  level : Level
  primitives : List Item
  condensed : List Item

namespace Compiler

def ofLevel (level : Level) : Compiler := ⟨level, [], []⟩

/-- The level of one call: the one requested, or else the compiler's own. -/
def levelFor (c : Compiler) : Value → Except Refusal Level
  | .absent => .ok c.level
  | request => Level.requested request

/-- Compiles a source. A call whose level is refused or whose source cannot be read leaves the
compiler as it was. -/
def compile (c : Compiler) (source : String) (request : Value) :
    Except Failure (List Item) × Compiler :=
  match c.levelFor request with
  | .error r => (.error (.refusal r), c)
  | .ok level =>
    match Compilation.ofSource source level with
    | .error e => (.error e, c)
    | .ok done => (done.program, { c with primitives := done.primitives, condensed := done.condensed })

end Compiler

end TapeMachine
