/-!
# Loose values

A `Value` is data as it arrives from outside, before anything is known of its shape: what a
caller asks for as a level, or what stands in a stream where an instruction should be.
-/
namespace TapeMachine

/-- A binary64 number, by its bits. -/
structure Binary64 where
  bits : UInt64
  deriving BEq

namespace Binary64

def negative (x : Binary64) : Bool := x.bits >>> 63 != 0

/-- The biased exponent. All ones mark the infinities and the values that are no number. -/
def exponent (x : Binary64) : Nat := ((x.bits >>> 52) &&& 0x7FF).toNat

def fraction (x : Binary64) : Nat := (x.bits &&& 0xFFFFFFFFFFFFF).toNat

def isNaN (x : Binary64) : Bool := x.exponent == 0x7FF && x.fraction != 0

def isInfinite (x : Binary64) : Bool := x.exponent == 0x7FF && x.fraction == 0

/-- The magnitude of a finite value is `significand * 2 ^ scale`. -/
def significand (x : Binary64) : Nat :=
  if x.exponent = 0 then x.fraction else (1 <<< 52) + x.fraction

def scale (x : Binary64) : Int :=
  if x.exponent = 0 then -1074 else (x.exponent : Int) - 1075

/-- A finite value without its fractional part. -/
def truncate (x : Binary64) : Int :=
  let magnitude : Nat := x.significand <<< x.scale.toNat >>> (-x.scale).toNat
  if x.negative then -magnitude else magnitude

end Binary64

/-- A loose value. -/
inductive Value where
  | absent
  | truth (b : Bool)
  | int (n : Int)
  | real (x : Binary64)
  | text (s : String)
  | list (values : List Value)
  | record (fields : List (String × Value))
  deriving BEq

/-- What a value is called in a message about its kind. -/
def Value.kind : Value → String
  | .absent => "NoneType"
  | .truth _ => "bool"
  | .int _ => "int"
  | .real _ => "float"
  | .text _ => "str"
  | .list _ => "list"
  | .record _ => "dict"

end TapeMachine
