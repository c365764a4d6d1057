import TapeMachine.Text.Digit

/-!
# Decimal numerals

A numeral is one sign at most and then decimal digits of any script, single underscores allowed
between two of them, with blanks around. No numeral that is read or written has more than 4300
digits.
-/
namespace TapeMachine.Text

/-- The most digits a numeral may have, leading zeros counted. -/
def digitLimit : Nat := 4300

/-- Whether an integer has few enough digits for a numeral, its sign apart. -/
def isWritable (n : Int) : Bool := (Nat.toDigits 10 n.natAbs).length ≤ digitLimit

inductive NumeralFault where
  | malformed
  | tooLong (digits : Nat)

/-- The number that the digits spell, the first being the most significant. -/
def numeralValue (digits : List Nat) : Nat :=
  digits.foldl (fun n d => 10 * n + d) 0

/-- Whether underscores stand only one at a time and between two other characters. -/
def wellSpaced : List Char → Bool
  | [] => false
  | ['_'] => false
  | [_] => true
  | '_' :: _ => false
  | _ :: '_' :: cs => wellSpaced cs
  | _ :: cs => wellSpaced cs

/-- The sign of a numeral and what follows it. -/
def splitSign : List Char → Int × List Char
  | '-' :: cs => (-1, cs)
  | '+' :: cs => (1, cs)
  | cs => (1, cs)

/-- Reads a numeral. Too many digits are reported before anything that stands behind them. -/
def readNumeral (s : String) : Except NumeralFault Int :=
  let (sign, cs) := splitSign (s.toList.dropWhile isBlank)
  let isBody c := c == '_' || (digit? c).isSome
  let body := cs.takeWhile isBody
  let digits := body.filterMap digit?
  if !wellSpaced body then .error .malformed
  else if digitLimit < digits.length then .error (.tooLong digits.length)
  else if (cs.dropWhile isBody).all isBlank then .ok (sign * numeralValue digits)
  else .error .malformed

end TapeMachine.Text
