import L32.JavaScript.Literal
import L32.JavaScript.Operator
import L32.SchemeText

set_option autoImplicit false

/-! # Programs as JavaScript

`Expr.toJavaScript` writes an expression as one JavaScript expression, `Form.toJavaScript` writes
a definition as a `const` declaration, and `Program.toJavaScript` writes one statement per form.
Quoted data, `let` and dictionary literals have no JavaScript text, nor has a procedure without a
body, nor an operator with too few operands.

Every operator application stands in parentheses of its own, except as a part of a conditional,
where every operator of the table binds tighter than `? :` and the parentheses are left out. -/

namespace L32

/-- Why an expression has no JavaScript text. -/
inductive UnparseError where
  /-- Quoted data, a `let` or a dictionary literal, with its Scheme text. -/
  | unsupportedNode (text : String)
  /-- An operator with too few operands. -/
  | operandCount (operator : String) (expected got : Nat)
  /-- A procedure without a body, with its Scheme text. -/
  | emptyBody (text : String)
  deriving DecidableEq, Repr

def UnparseError.message : UnparseError → String
  | unsupportedNode text => "unsupported node: " ++ text
  | operandCount operator expected got =>
    "invalid argument count for " ++ operator ++ ": expected " ++ natText expected
      ++ ", got " ++ natText got
  | emptyBody text => "procedure has an empty body: " ++ text

namespace JavaScript

/-- Where an expression is written. -/
inductive Place where
  /-- On its own: operator applications are parenthesised. -/
  | alone
  /-- As a part of a conditional: they are not. -/
  | part
  deriving DecidableEq, Repr

/-- Puts an operator application into parentheses where its place asks for them. -/
def Place.wrap : Place → String → String
  | alone, t => "(" ++ t ++ ")"
  | part, t => t

def callText (callee : String) (operands : List String) : String :=
  callee ++ "(" ++ joinWith "," operands ++ ")"

/-- The application of a primitive operator: by the operator table, or else as a call. -/
def primText (place : Place) (name : String) (operands : List String) :
    Except UnparseError String :=
  match operator? name with
  | none => .ok (callText name operands)
  | some operator =>
    match operator.write? operands with
    | some t => .ok (place.wrap t)
    | none => .error (.operandCount name operator.needed operands.length)

/-- The body of a procedure: one expression as it is, several in parentheses. -/
def bodyText : List String → String
  | [t] => t
  | ts => "(" ++ joinWith " ; " ts ++ ")"

def lambdaText (params : List String) (body : List String) : String :=
  "((" ++ joinWith "," params ++ ") => " ++ bodyText body ++ ")"

def condText (test yes no : String) : String :=
  "(" ++ test ++ " ? " ++ yes ++ " : " ++ no ++ ")"

end JavaScript

open JavaScript

mutual

/-- The JavaScript text of an expression at a place. The operands of an application come before
its operator: the first failure decides. -/
def Expr.unparse : Place → Expr → Except UnparseError String
  | _, .number x => .ok (numberText x)
  | _, .bool b => .ok (boolText b)
  | _, .str s => .ok (stringText s)
  | _, .var name => .ok name
  | _, .prim name => .ok (operatorToken name)
  | _, .literal d => .error (.unsupportedNode (Expr.literal d).toScheme)
  | _, .cond test yes no => do
    let t ← test.unparse .part
    let y ← yes.unparse .part
    let n ← no.unparse .part
    .ok (condText t y n)
  | _, .lambda params [] => .error (.emptyBody (Expr.lambda params []).toScheme)
  | _, .lambda params (e :: es) => do
    let t ← e.unparse .alone
    let ts ← Expr.unparseAll es
    .ok (lambdaText params (t :: ts))
  | place, .app operator operands => do
    let ts ← Expr.unparseAll operands
    match operator with
    | .prim name => primText place name ts
    | _ =>
      let callee ← operator.unparse .alone
      .ok (callText callee ts)
  | _, .letIn bindings body => .error (.unsupportedNode (Expr.letIn bindings body).toScheme)
  | _, .dict entries => .error (.unsupportedNode (Expr.dict entries).toScheme)

def Expr.unparseAll : List Expr → Except UnparseError (List String)
  | [] => .ok []
  | e :: es => do
    let t ← e.unparse .alone
    let ts ← Expr.unparseAll es
    .ok (t :: ts)

end

def Expr.toJavaScript (e : Expr) : Except UnparseError String :=
  e.unparse .alone

def Form.toJavaScript : Form → Except UnparseError String
  | .define name value => do
    let t ← value.toJavaScript
    .ok ("const " ++ name ++ " = " ++ t)
  | .expr value => value.toJavaScript

def Form.javaScriptTexts : List Form → Except UnparseError (List String)
  | [] => .ok []
  | f :: fs => do
    let t ← f.toJavaScript
    let ts ← Form.javaScriptTexts fs
    .ok (t :: ts)

/-- The JavaScript text of a program: its forms, with a semicolon and a line break between each
two of them. -/
def Program.toJavaScript (p : Program) : Except UnparseError String := do
  let ts ← Form.javaScriptTexts p.forms
  .ok (joinWith ";\n" ts)

end L32
