import L32.Number.Shortest
import L32.Text.Escape

set_option autoImplicit false

/-! # JavaScript literals

The text of numbers and strings in JavaScript. A number is laid out as JavaScript itself prints
it: plain up to twenty-one digits in front of the point and six zeros behind it, and with an
exponent beyond. A string is one closed literal without control characters. -/

namespace L32.JavaScript

def decimalText (d : Decimal) : String :=
  if -6 < d.point ∧ d.point ≤ 21 then d.plain else d.scientific

/-- The text of a number. Both zeros are `0`. -/
def numberText (x : Float) : String :=
  match Double.ofFloat x with
  | .notANumber => "NaN"
  | .infinite negative => if negative then "-Infinity" else "Infinity"
  | .finite negative mantissa exponent =>
    if mantissa = 0 then "0"
    else decimalText (Decimal.shortest .up negative mantissa exponent)

/-- The escapes of a string: the usual letters, the code of every other control character, and
everything else as itself. -/
def escape (c : Char) : List Char :=
  match c with
  | '\\' => ['\\', '\\']
  | '"' => ['\\', '"']
  | '\n' => ['\\', 'n']
  | '\r' => ['\\', 'r']
  | '\t' => ['\\', 't']
  | '\x08' => ['\\', 'b']
  | '\x0c' => ['\\', 'f']
  | c => if isControl c then codeEscape c else [c]

def stringText (s : String) : String :=
  "\"" ++ escapeWith escape s ++ "\""

def boolText : Bool → String
  | true => "true"
  | false => "false"

end L32.JavaScript
