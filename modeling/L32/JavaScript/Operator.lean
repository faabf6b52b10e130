import L32.Text.Escape

set_option autoImplicit false

/-! # The operator table

The primitive operators that JavaScript writes as operators and not as calls. Each needs a number
of operands; some join all they get, and the others leave out what is beyond their number. -/

namespace L32.JavaScript

/-- How the application of an operator is written. -/
inductive Operator where
  /-- All operands, joined with a symbol. -/
  | chain (symbol : String)
  /-- The first two operands, compared. -/
  | equality
  /-- The first operand, negated. -/
  | negation
  /-- The first operand, tested for a type. -/
  | typeTest (type : String)
  deriving DecidableEq, Repr

/-- The table of operators. -/
def operator? : String → Option Operator
  | "+" => some (.chain "+")
  | "-" => some (.chain "-")
  | "*" => some (.chain "*")
  | "/" => some (.chain "/")
  | "<" => some (.chain "<")
  | ">" => some (.chain ">")
  | "=" => some .equality
  | "eq?" => some .equality
  | "and" => some (.chain "&&")
  | "or" => some (.chain "||")
  | "not" => some .negation
  | "number?" => some (.typeTest "number")
  | "boolean?" => some (.typeTest "boolean")
  | _ => none

/-- The token of an operator that is mentioned without being applied. -/
def operatorToken : String → String
  | "=" => "==="
  | "eq?" => "==="
  | "and" => "&&"
  | "or" => "||"
  | "not" => "!"
  | name => name

namespace Operator

/-- How many operands an operator needs. -/
def needed : Operator → Nat
  | chain _ => 2
  | equality => 2
  | negation => 1
  | typeTest _ => 1

/-- The application of an operator to the texts of its operands, without parentheses around it;
`none` when there are too few. -/
def write? : Operator → List String → Option String
  | chain symbol, t :: u :: ts => some (joinWith (" " ++ symbol ++ " ") (t :: u :: ts))
  | equality, t :: u :: _ => some (t ++ " === " ++ u)
  | negation, t :: _ => some ("!" ++ t)
  | typeTest type, t :: _ => some ("typeof " ++ t ++ " === '" ++ type ++ "'")
  | _, _ => none

end Operator

end L32.JavaScript
