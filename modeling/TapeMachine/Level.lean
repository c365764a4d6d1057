import TapeMachine.Fault
import TapeMachine.Text.Numeral

/-!
# Optimization levels

How far a stream is condensed. A request for a level is a loose value: anything that can be read
as an integer, and the integer is moved into the range of the levels.
-/
namespace TapeMachine

inductive Level where
  /-- Primitive instructions as they stand. -/
  | plain
  /-- Runs of equal steps made one. -/
  | folded
  /-- Runs folded and loop idioms recognised. -/
  | idiomatic
  deriving DecidableEq

namespace Level

def toNat : Level → Nat
  | plain => 0
  | folded => 1
  | idiomatic => 2

/-- The level nearest to an integer. -/
def ofInt (n : Int) : Level :=
  if n ≤ 0 then plain else if n = 1 then folded else idiomatic

/-- The level used when none is asked for. -/
def standard : Level := idiomatic

instance : Max Level where
  max a b := if a.toNat ≤ b.toNat then b else a

end Level

/-- The integer a loose value stands for: numbers lose their fraction, texts are numerals. -/
def Value.toInt : Value → Except Refusal Int
  | .int n => .ok n
  | .truth b => .ok (if b then 1 else 0)
  | .real x =>
    if x.isNaN then .error .notANumber
    else if x.isInfinite then .error .infiniteNumber
    else .ok x.truncate
  | .text s =>
    match Text.readNumeral s with
    | .ok n => .ok n
    | .error .malformed => .error (.malformedNumeral s)
    | .error (.tooLong digits) => .error (.longNumeral digits)
  | v => .error (.notNumeric v)

/-- The level a request stands for. -/
def Level.requested : Value → Except Refusal Level
  | .absent => .ok .standard
  | v => v.toInt.map .ofInt

end TapeMachine
