import TapeMachine.Value

/-!
# Decimal text of binary64 numbers

A finite number is written with the fewest digits that read back to it, of several such the
nearest one. All arithmetic is on integers: the number is `significand * 2 ^ scale`, and it is
what a reader rounds to from anywhere between halfway to the number below and halfway to the
one above, the ends included if the significand is even.
-/
namespace TapeMachine

/-- The number `digits * 10 ^ exponent`. -/
structure Decimal where
  digits : Nat
  exponent : Int

namespace Decimal

/-- How `d` compares with `n * 2 ^ e`. -/
def compareWith (d : Decimal) (n : Nat) (e : Int) : Ordering :=
  compare ((d.digits * Nat.pow 10 d.exponent.toNat) <<< (-e).toNat)
    ((n <<< e.toNat) * Nat.pow 10 (-d.exponent).toNat)

/-- The two decimals with the given exponent between which `n * 2 ^ e` lies. -/
def around (n : Nat) (e exponent : Int) : Decimal × Decimal :=
  let below := (n <<< e.toNat) * Nat.pow 10 (-exponent).toNat /
    ((1 <<< (-e).toNat) * Nat.pow 10 exponent.toNat)
  (⟨below, exponent⟩, ⟨below + 1, exponent⟩)

end Decimal

namespace Binary64

/-- Whether `d` reads back to the magnitude of `x`. -/
def readsBack (x : Binary64) (d : Decimal) : Bool :=
  let m := x.significand
  -- below a power of two the next number is half as far away
  let gap := if x.fraction = 0 ∧ 1 < x.exponent then 1 else 2
  let low := d.compareWith (4 * m - gap) (x.scale - 2)
  let high := d.compareWith (4 * m + 2) (x.scale - 2)
  let even := m % 2 == 0
  (low == .gt || (even && low == .eq)) && (high == .lt || (even && high == .eq))

/-- How many digits the magnitude has before the point, or minus the zeros after it. -/
def pointPlace (x : Binary64) : Int :=
  let m := x.significand
  let atLeast (k : Int) : Bool := Decimal.compareWith ⟨1, k⟩ m x.scale != .gt
  match (List.range 309).reverse.find? fun k : Nat => atLeast k with
  | some k => k + 1
  | none => 1 - ((List.range 325).find? fun k : Nat => atLeast (-(k : Int))).getD 0

/-- The nearer of the decimals that read back on one grid. -/
def onGrid? (x : Binary64) (exponent : Int) : Option Decimal :=
  let (below, above) := Decimal.around x.significand x.scale exponent
  match x.readsBack below, x.readsBack above with
  | true, false => some below
  | false, true => some above
  | false, false => none
  | true, true =>
    -- the sum of the neighbours against twice the number
    match Decimal.compareWith ⟨2 * below.digits + 1, exponent⟩ (2 * x.significand) x.scale with
    | .gt => some below
    | .lt => some above
    | .eq => some (if below.digits % 2 = 0 then below else above)

/-- The shortest decimal for the magnitude of a nonzero finite number. -/
def shortest (x : Binary64) : Decimal :=
  let place := x.pointPlace
  ((List.range 17).findSome? fun n : Nat => x.onGrid? (place - (n + 1))).getD
    (Decimal.around x.significand x.scale (-1074)).1

/-- Digits without the zeros at the end. -/
def significant (digits : List Char) : List Char :=
  (digits.reverse.dropWhile (· == '0')).reverse

/-- Numbers are written out from 0.0001 to below 10^16 and otherwise with an exponent of two
digits or more. A number written out has a digit on either side of the point. -/
def layout (digits : List Char) (place : Int) : List Char :=
  if -4 < place ∧ place ≤ 16 then
    let whole := if place ≤ 0 then ['0'] else
      digits.take place.toNat ++ List.replicate (place.toNat - digits.length) '0'
    let part := List.replicate (-place).toNat '0' ++ digits.drop place.toNat
    whole ++ '.' :: (if part.isEmpty then ['0'] else part)
  else
    let power := (place - 1).natAbs
    let part := digits.drop 1
    digits.take 1 ++ (if part.isEmpty then [] else '.' :: part) ++
      'e' :: (if place - 1 < 0 then '-' else '+') ::
        (if power < 10 then ['0'] else []) ++ (toString power).toList

def magnitudeText (x : Binary64) : List Char :=
  if x.isNaN then ['n', 'a', 'n']
  else if x.isInfinite then ['i', 'n', 'f']
  else if x.significand = 0 then ['0', '.', '0']
  else
    let d := x.shortest
    let digits := (toString d.digits).toList
    layout (significant digits) (digits.length + d.exponent)

def text (x : Binary64) : String :=
  String.ofList ((if x.negative && !x.isNaN then ['-'] else []) ++ x.magnitudeText)

end Binary64

end TapeMachine
