import TapeMachine.Cell

/-!
# Tapes

A tape is a row of 8-bit cells. Addresses are formed by masking an integer with the size less
one, so on a tape whose size is a power of two it is a circle. On other tapes the mask leaves
cells out, and a walk along the tape need not come back to where it began.
-/
namespace TapeMachine

abbrev Tape := Array UInt8

namespace Tape

/-- The tape of a session at the start. -/
def blank : Tape := Array.replicate tapeSize 0

/-- The cell at an address, and zero beyond the end. -/
def cell (tape : Tape) (i : Nat) : UInt8 := tape.getD i 0

def hasZero (tape : Tape) : Bool := tape.any (· == 0)

end Tape

/-- The bits of an integer under a mask, negative integers being in two's complement. -/
def maskBits (mask : Nat) : Int → Nat
  | .ofNat n => n &&& mask
  | .negSucc n => mask - (n &&& mask)

/-- The address an integer stands for on a tape of the given size. -/
def address (size : Nat) (i : Int) : Nat := maskBits (size - 1) i

/-! ## Walks -/

/-- Walks on by `step` from `pointer`, for a number of rounds, until a zero cell or the start. -/
def scanFrom (tape : Tape) (start : Nat) (step : Int) : Nat → Nat → Option (Nat × Bool)
  | 0, _ => none
  | rounds + 1, pointer =>
    let next := address tape.size (pointer + step)
    if tape.cell next = 0 then some (next, true)
    else if next = start then some (start, false)
    else scanFrom tape start step rounds next

/-- Where a walk from `pointer` by `step` ends, and whether at a zero cell. It has no end when it
meets neither a zero cell nor its start. By as many rounds as the tape has cells, it has met every
cell it will ever meet. -/
def scan (tape : Tape) (pointer : Nat) (step : Int) : Option (Nat × Bool) :=
  scanFrom tape pointer step tape.size pointer

/-! ## Drains -/

/-- Adds `step` to `current`, for a number of rounds, until zero or the first value comes up. -/
def roundsFrom (value step : Int) : Nat → Int → Nat → Option Nat
  | 0, _, _ => none
  | rounds + 1, current, count =>
    let next := Cell.wrap (current + step)
    if next = 0 then some (count + 1)
    else if next = value then none
    else roundsFrom value step rounds next (count + 1)

/-- How many additions of `step` take a cell from `value` to zero, if they ever do. After 256
rounds every cell is back at its first value. -/
def roundsToZero? (value step : Int) : Option Nat := roundsFrom value step 256 value 0

end TapeMachine
