import L32.SchemeText

set_option autoImplicit false

/-! # Expressions as quoted data

Two ways to turn an expression into the datum that a quotation of it denotes.

* `Expr.encode` takes atomic literals and quoted data only, as the data they denote.
* `Expr.quote` takes every expression without a dictionary literal. Code becomes the list that
  its Scheme text reads as: `(if a b c)` becomes the list of the symbol `if` and three values,
  and quoted data inside code becomes a list headed by the symbol `quote`. Quoted data that is
  itself the whole expression becomes its payload, so both functions agree on it.

A `ValuePolicy` says which of the two applies to the values of a dictionary. -/

namespace L32

/-- How the values of a dictionary become data. -/
inductive ValuePolicy where
  /-- A value is an atomic literal or quoted data. -/
  | literal
  /-- A value is any expression without a dictionary literal. -/
  | structural
  deriving DecidableEq, Repr, Inhabited

/-- Why a dictionary cannot be desugared; each cause carries the Scheme text of the offender. -/
inductive DesugarError where
  /-- A key is neither a variable nor a quoted symbol. -/
  | malformedKey (text : String)
  /-- A value cannot become data. -/
  | nonLiteralValue (text : String)
  deriving DecidableEq, Repr

def DesugarError.message : DesugarError → String
  | malformedKey text => "malformed dictionary key: " ++ text
  | nonLiteralValue text => "non-literal value cannot be quoted: " ++ text

/-- The datum that an atomic literal or quoted data denotes. -/
def Expr.encode : Expr → Except DesugarError Datum
  | .number x => .ok (.number x)
  | .bool b => .ok (.bool b)
  | .str s => .ok (.str s)
  | .literal d => .ok d
  | e => .error (.nonLiteralValue e.toScheme)

def Datum.headed (keyword : String) (ds : List Datum) : Datum :=
  .ofList (.symbol keyword :: ds)

mutual

def Expr.quoteCode : Expr → Except DesugarError Datum
  | .number x => .ok (.number x)
  | .bool b => .ok (.bool b)
  | .str s => .ok (.str s)
  | .var name => .ok (.symbol name)
  | .prim name => .ok (.symbol name)
  | .literal d => .ok (.headed "quote" [d])
  | .cond test yes no => do
    let t ← test.quoteCode
    let y ← yes.quoteCode
    let n ← no.quoteCode
    .ok (.headed "if" [t, y, n])
  | .lambda params body => do
    let ds ← Expr.quoteCodes body
    .ok (.headed "lambda" (.ofList (params.map .symbol) :: ds))
  | .app operator operands => do
    let d ← operator.quoteCode
    let ds ← Expr.quoteCodes operands
    .ok (.ofList (d :: ds))
  | .letIn bindings body => do
    let bs ← Expr.quoteBindings bindings
    let ds ← Expr.quoteCodes body
    .ok (.headed "let" (.ofList bs :: ds))
  | .dict entries => .error (.nonLiteralValue (Expr.dict entries).toScheme)

/-- The code of several expressions; the first that fails decides. -/
def Expr.quoteCodes : List Expr → Except DesugarError (List Datum)
  | [] => .ok []
  | e :: es => do
    let d ← e.quoteCode
    let ds ← Expr.quoteCodes es
    .ok (d :: ds)

/-- The code of bindings, a list of name and value each. -/
def Expr.quoteBindings : List (Binding Expr) → Except DesugarError (List Datum)
  | [] => .ok []
  | ⟨name, e⟩ :: bs => do
    let d ← e.quoteCode
    let ds ← Expr.quoteBindings bs
    .ok (.ofList [.symbol name, d] :: ds)

end

/-- The datum that quoting an expression denotes. -/
def Expr.quote : Expr → Except DesugarError Datum
  | .literal d => .ok d
  | e => e.quoteCode

def ValuePolicy.quoteValue : ValuePolicy → Expr → Except DesugarError Datum
  | literal, e => e.encode
  | structural, e => e.quote

end L32
