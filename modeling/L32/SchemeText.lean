import L32.Expr
import L32.Number.Shortest
import L32.Text.Escape

set_option autoImplicit false

/-! # Scheme text

How data, expressions, forms and programs are written in Scheme's notation: `toScheme` for each
of them. Everything stands on one line, unless a name brings a line break of its own: a string
shows its line breaks as escapes.

A number has the fewest digits that read back and never an exponent; a proper list is written as
`(a b c)` and a dotted chain as `(a b . c)`; quoted data has an apostrophe in front; and a
program is one list headed by the name of the language. -/

namespace L32

namespace SchemeText

/-- The escapes of a string: backslash, quote, line feed, carriage return and tab. Everything else
stands for itself. -/
def escape : Char → List Char
  | '\\' => ['\\', '\\']
  | '"' => ['\\', '"']
  | '\n' => ['\\', 'n']
  | '\r' => ['\\', 'r']
  | '\t' => ['\\', 't']
  | c => [c]

def ofString (s : String) : String :=
  "\"" ++ escapeWith escape s ++ "\""

def ofBool : Bool → String
  | true => "#t"
  | false => "#f"

/-- A number: the fewest digits that read back, without an exponent and without a point when there
is no fraction. -/
def ofNumber (x : Float) : String :=
  match Double.ofFloat x with
  | .notANumber => "NaN"
  | .infinite negative => if negative then "-inf" else "inf"
  | .finite negative mantissa exponent =>
    (Decimal.shortest .up negative mantissa exponent).plain

end SchemeText

/-! ## Data -/

namespace Datum

def atomText : Datum → String
  | symbol name => name
  | number x => SchemeText.ofNumber x
  | bool b => SchemeText.ofBool b
  | str s => SchemeText.ofString s
  | pair _ _ | empty => "()"

mutual

def toScheme : Datum → String
  | pair h t => "(" ++ h.toScheme ++ t.tailText
  | d => d.atomText

/-- What follows the first member of a chain, with the closing parenthesis. -/
def tailText : Datum → String
  | pair h t => " " ++ h.toScheme ++ t.tailText
  | empty => ")"
  | d => " . " ++ d.atomText ++ ")"

end

end Datum

/-! ## Expressions -/

mutual

def Expr.toScheme : Expr → String
  | .number x => SchemeText.ofNumber x
  | .bool b => SchemeText.ofBool b
  | .str s => SchemeText.ofString s
  | .var name => name
  | .prim name => name
  | .literal d => "'" ++ d.toScheme
  | .cond test yes no =>
    "(if " ++ test.toScheme ++ " " ++ yes.toScheme ++ " " ++ no.toScheme ++ ")"
  | .lambda params body =>
    "(lambda (" ++ joinWith " " params ++ ")" ++ leadWith " " (Expr.schemeTexts body) ++ ")"
  | .app operator operands =>
    "(" ++ operator.toScheme ++ leadWith " " (Expr.schemeTexts operands) ++ ")"
  | .letIn bindings body =>
    "(let (" ++ joinWith " " (Expr.bindingTexts bindings) ++ ")"
      ++ leadWith " " (Expr.schemeTexts body) ++ ")"
  | .dict entries => "(dict" ++ leadWith " " (Expr.entryTexts entries) ++ ")"

def Expr.schemeTexts : List Expr → List String
  | [] => []
  | e :: es => e.toScheme :: Expr.schemeTexts es

/-- The Scheme texts of bindings, `(name value)` each. -/
def Expr.bindingTexts : List (Binding Expr) → List String
  | [] => []
  | ⟨name, e⟩ :: bs => ("(" ++ name ++ " " ++ e.toScheme ++ ")") :: Expr.bindingTexts bs

/-- The Scheme texts of dictionary entries, `(key value)` each. -/
def Expr.entryTexts : List (Entry Expr) → List String
  | [] => []
  | ⟨k, e⟩ :: es => ("(" ++ k.toScheme ++ " " ++ e.toScheme ++ ")") :: Expr.entryTexts es

end

/-! ## Forms and programs -/

def Form.toScheme : Form → String
  | define name value => "(define " ++ name ++ " " ++ value.toScheme ++ ")"
  | expr value => value.toScheme

/-- The Scheme text of a program: one list, headed by the name of the language. -/
def Program.toScheme (p : Program) : String :=
  "(L32" ++ leadWith " " (p.forms.map Form.toScheme) ++ ")"

end L32
