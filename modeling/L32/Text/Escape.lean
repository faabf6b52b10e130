set_option autoImplicit false

/-! # Joined and escaped text

Two small things that several output formats share: texts joined with a separator between each
two of them, and a character written by its code in four hexadecimal digits. Escaping as such
differs from format to format, and each format states its own table of escapes as a function from
a character to its written form; `escapeWith` applies such a table to a whole text. -/

namespace L32

/-- The texts in order, with the separator between each two of them. -/
def joinWith (separator : String) : List String → String
  | [] => ""
  | [t] => t
  | t :: u :: ts => t ++ separator ++ joinWith separator (u :: ts)

/-- Every text preceded by the separator. -/
def leadWith (separator : String) : List String → String
  | [] => ""
  | t :: ts => separator ++ t ++ leadWith separator ts

/-- The text with each character replaced by its written form. -/
def escapeWith (escape : Char → List Char) (text : String) : String :=
  String.ofList (text.toList.flatMap escape)

def hexDigit (n : Nat) : Char :=
  if n < 10 then Char.ofNat (48 + n) else Char.ofNat (87 + n)

def hexValue? (c : Char) : Option Nat :=
  let n := c.toNat
  if 48 ≤ n ∧ n ≤ 57 then some (n - 48)
  else if 97 ≤ n ∧ n ≤ 102 then some (n - 87)
  else if 65 ≤ n ∧ n ≤ 70 then some (n - 55)
  else none

/-- The escape of a character by its code: a backslash, `u` and four hexadecimal digits. It is
meant for the characters below U+10000. -/
def codeEscape (c : Char) : List Char :=
  let n := c.toNat
  ['\\', 'u', hexDigit (n / 4096 % 16), hexDigit (n / 256 % 16), hexDigit (n / 16 % 16),
    hexDigit (n % 16)]

/-- The control characters: U+0000 to U+001F and U+007F to U+009F. -/
def isControl (c : Char) : Bool :=
  c.toNat < 32 || (127 ≤ c.toNat && c.toNat < 160)

end L32
