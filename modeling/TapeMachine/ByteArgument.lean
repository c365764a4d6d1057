import TapeMachine.Fault
import TapeMachine.Text.Numeral

/-!
# Program input from arguments

No argument is no input, one argument is its own text, and several are one byte each, in decimal.
A byte is written as a plus sign if any and ASCII digits, and may have a line feed behind it.

An argument is a text, so there are bytes for it. A word with a lone surrogate in it is no text and
has none; what becomes of such a word is not described here.
-/
namespace TapeMachine.ByteArgument

/-- An argument without the plus sign in front of it. -/
def unsigned : List Char → List Char
  | '+' :: cs => cs
  | cs => cs

/-- The digits of an argument that has the form of a byte. -/
def digits? (argument : String) : Option (List Nat) :=
  let cs := unsigned argument.toList
  let digits := cs.filterMap Text.asciiDigit?
  let rest := cs.dropWhile Char.isDigit
  if digits = [] then none
  else if rest = [] ∨ rest = ['\n'] then some digits
  else none

def invalidDigit : String := "invalid digit found in string"

def tooLarge : String := "number too large to fit in target type"

/-- The byte an argument stands for. -/
def parse (argument : String) : Except Failure UInt8 :=
  match digits? argument with
  | none => .error (.fault (.badByte argument invalidDigit))
  | some digits =>
    if Text.digitLimit < digits.length then .error (.refusal (.longNumeral digits.length))
    else
      let n := Text.numeralValue digits
      if n < 256 then .ok (UInt8.ofNat n) else .error (.fault (.badByte argument tooLarge))

/-- The program input that the arguments stand for, in reading order. -/
def input : List String → Except Failure (Option (List UInt8))
  | [] => .ok none
  | [text] => .ok (some (Utf8.encode text))
  | arguments => (arguments.mapM parse).map some

end TapeMachine.ByteArgument
