import TapeMachine.Text.Numeral
import TapeMachine.Text.Quoted
import TapeMachine.Text.Utf8
import TapeMachine.Value

/-!
# Refusals

A `Refusal` says that a value cannot be taken at all, or cannot be shown: an integer of more
digits than a numeral may have is not written. A text that would hold one is refused as a whole.
-/
namespace TapeMachine

/-- Why a value cannot be taken or shown. -/
inductive Refusal where
  /-- A stream item that is to be encoded or described is no instruction. The text shows it. -/
  | notInstruction (shown : String)
  /-- A stream item that is to be listed has no position. -/
  | noPosition (v : Value)
  /-- A numeric field that does not fit in a signed 64-bit word. -/
  | wideField
  /-- An integer that is to be written and has too many digits. -/
  | longInteger
  /-- A queue value outside `0..255`. -/
  | queueRange
  /-- An input value outside `0..255`. -/
  | inputRange
  | unknownMisuse (name : String)
  | notNumeric (v : Value)
  | infiniteNumber
  | notANumber
  | malformedNumeral (text : String)
  | longNumeral (digits : Nat)
  | undecodable (breach : Utf8.Breach)
  | nulInName

namespace Refusal

/-- The name a refusal goes by where nothing handles it. -/
def name : Refusal → String
  | notInstruction _ | notNumeric _ => "TypeError"
  | noPosition _ => "AttributeError"
  | wideField | infiniteNumber => "OverflowError"
  | undecodable _ => "UnicodeDecodeError"
  | longInteger | queueRange | inputRange | unknownMisuse _ | notANumber | malformedNumeral _
  | longNumeral _ | nulInName => "ValueError"

def undecodableMessage (breach : Utf8.Breach) : String :=
  let place := match breach.bytes with
    | [b] => "byte 0x" ++ String.ofList (Text.hex 2 b.toNat) ++ " in position " ++ toString breach.offset
    | bytes => "bytes in position " ++ toString breach.offset ++ "-" ++
        toString (breach.offset + bytes.length - 1)
  "'utf-8' codec can't decode " ++ place ++ ": " ++ breach.defect.message

def message : Refusal → String
  | notInstruction shown => "Unexpected instruction: " ++ shown
  | noPosition v => "'" ++ v.kind ++ "' object has no attribute 'position'"
  | wideField => "Python int too large to convert to C long"
  | longInteger =>
    "Exceeds the limit (4300 digits) for integer string conversion; " ++
      "use sys.set_int_max_str_digits() to increase the limit"
  | queueRange => "byte must be in range(0, 256)"
  | inputRange => "bytes must be in range(0, 256)"
  | unknownMisuse name => "Unknown state error kind: " ++ name
  | notNumeric v =>
    "int() argument must be a string, a bytes-like object or a real number, not '" ++ v.kind ++ "'"
  | infiniteNumber => "cannot convert float infinity to integer"
  | notANumber => "cannot convert float NaN to integer"
  | malformedNumeral text =>
    "invalid literal for int() with base 10: " ++
      String.ofList ((Text.quoted text).toList.take 200)
  | longNumeral digits =>
    "Exceeds the limit (4300 digits) for integer string conversion: value has " ++
      toString digits ++ " digits; use sys.set_int_max_str_digits() to increase the limit"
  | undecodable breach => undecodableMessage breach
  | nulInName => "embedded null byte"

end Refusal

/-! ## Written integers -/

/-- An integer in decimal. -/
def decimalText (n : Int) : Except Refusal String :=
  if Text.isWritable n then .ok (toString n) else .error .longInteger

/-- An integer in decimal with its sign, zero counting as positive. -/
def signedText (n : Int) : Except Refusal String :=
  (decimalText n).map fun text => if n < 0 then text else "+" ++ text

end TapeMachine
