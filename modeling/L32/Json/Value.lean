import L32.Number.Shortest
import L32.Number.Nearest
import L32.Text.Escape

set_option autoImplicit false

/-! # JSON values and their text

A `Json` value keeps what its text says: the fields of an object in their order and with
repetitions, and a number as the decimal that was written. It has two texts, `Json.compact`
without any blank and `Json.pretty` with two blanks of indentation per level.

A string may hold escapes that spell no text, because half of a surrogate pair is no character.
Such a string is well-formed JSON all the same, so the content of a string is optional: `none`
stands for it. -/

namespace L32

/-- A number as it is written: `± whole.fraction · 10 ^ exponent`. -/
structure Numeral where
  negative : Bool
  whole : Nat
  fraction : List Digit
  exponent : Int
  deriving DecidableEq, Repr

namespace Numeral

/-- The text of a numeral: the point is left out with an empty fraction, and the exponent when it
is zero. -/
def text (n : Numeral) : String :=
  (if n.negative then "-" else "") ++ Decimal.pointed (digitsOf n.whole) n.fraction
    ++ (if n.exponent = 0 then ""
        else "e" ++ (if n.exponent < 0 then "-" else "+") ++ natText n.exponent.natAbs)

/-- The double nearest to a numeral; `none` when it is beyond the largest one. -/
def toFloat? (n : Numeral) : Option Float :=
  nearestDouble? n.negative (n.fraction.foldl (fun m d => 10 * m + d.val) n.whole)
    (n.exponent - n.fraction.length)

/-- The numeral of a decimal. From five places behind the point to sixteen digits in front of it
there is no exponent, and always a fraction. -/
def ofDecimal (d : Decimal) : Numeral :=
  if -5 ≤ d.exponent ∧ d.exponent ≤ 15 then
    { negative := d.negative
      whole := ofDigits d.whole
      fraction := if d.fraction = [] then [0] else d.fraction
      exponent := 0 }
  else
    { negative := d.negative
      whole := ofDigits (d.digits.take 1)
      fraction := d.digits.drop 1
      exponent := d.exponent }

/-- The numeral of a double; `none` for an infinity and for what is not a number. -/
def ofFloat? (x : Float) : Option Numeral :=
  match Double.ofFloat x with
  | .finite negative mantissa exponent =>
    some (ofDecimal (Decimal.shortest .even negative mantissa exponent))
  | _ => none

end Numeral

inductive Json where
  | null
  | bool (value : Bool)
  | number (value : Numeral)
  | str (value : Option String)
  | array (items : List Json)
  | object (fields : List (Option String × Json))
  deriving Inhabited

namespace Json

/-! ## Text -/

/-- The escapes of a string: the usual letters, and the code of every other character below the
blank. -/
def escape (c : Char) : List Char :=
  match c with
  | '\\' => ['\\', '\\']
  | '"' => ['\\', '"']
  | '\n' => ['\\', 'n']
  | '\r' => ['\\', 'r']
  | '\t' => ['\\', 't']
  | '\x08' => ['\\', 'b']
  | '\x0c' => ['\\', 'f']
  | c => if c.toNat < 32 then codeEscape c else [c]

/-- The text of a string. One without a content shows half of a surrogate pair. -/
def strText : Option String → String
  | some s => "\"" ++ escapeWith escape s ++ "\""
  | none => "\"\\ud800\""

def boolText : Bool → String
  | true => "true"
  | false => "false"

mutual

/-- The text without blanks. -/
def compact : Json → String
  | null => "null"
  | bool b => boolText b
  | number n => n.text
  | str s => strText s
  | array items => "[" ++ joinWith "," (compactItems items) ++ "]"
  | object fields => "\x7b" ++ joinWith "," (compactFields fields) ++ "\x7d"

def compactItems : List Json → List String
  | [] => []
  | v :: vs => v.compact :: compactItems vs

def compactFields : List (Option String × Json) → List String
  | [] => []
  | (k, v) :: fs => (strText k ++ ":" ++ v.compact) :: compactFields fs

end

/-- A line break and the indentation of a level. -/
def lineStart (level : Nat) : String :=
  "\n" ++ String.ofList (List.replicate (2 * level) ' ')

/-- Texts on lines of their own between two brackets; nothing but the brackets if there are
none. -/
def block (level : Nat) (opening closing : String) : List String → String
  | [] => opening ++ closing
  | t :: ts =>
    opening ++ lineStart (level + 1) ++ joinWith ("," ++ lineStart (level + 1)) (t :: ts)
      ++ lineStart level ++ closing

mutual

/-- The text with one line per item and field, at a level of indentation. -/
def prettyAt : Nat → Json → String
  | _, null => "null"
  | _, bool b => boolText b
  | _, number n => n.text
  | _, str s => strText s
  | level, array items => block level "[" "]" (prettyItems (level + 1) items)
  | level, object fields => block level "\x7b" "\x7d" (prettyFields (level + 1) fields)

def prettyItems : Nat → List Json → List String
  | _, [] => []
  | level, v :: vs => v.prettyAt level :: prettyItems level vs

def prettyFields : Nat → List (Option String × Json) → List String
  | _, [] => []
  | level, (k, v) :: fs => (strText k ++ ": " ++ v.prettyAt level) :: prettyFields level fs

end

def pretty (v : Json) : String :=
  v.prettyAt 0

end Json

end L32
