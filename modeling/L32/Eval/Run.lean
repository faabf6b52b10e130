import L32.Eval.Value

set_option autoImplicit false

/-! # Running programs

`eval` is the meaning of an expression under global definitions and a local environment, and
`run` that of a program: its forms in order, the definitions joining the globals, the value of the
last bare expression being the result. Evaluation is strict and goes from left to right.

The language that is evaluated has no dictionary literals. What evaluation does when it meets one
is a parameter, `onDict`, of everything here; `refuseDict` is the rule that is in force, an error
that shows the literal.

The fuel bounds how deep evaluation goes, not how long it takes. -/

namespace L32

/-- What evaluation does when it meets a dictionary literal of these entries. -/
abbrev DictRule := List (Entry Expr) → Outcome Value

/-- A dictionary literal is an error that shows the literal. -/
def refuseDict : DictRule := fun entries =>
  .failed (.unsupported (Expr.dict entries).toScheme)

/-- Evaluates the expressions of a body in order and gives the value of the last; that of an empty
body is the empty list. -/
def evalBody (ev : Expr → Outcome Value) : List Expr → Outcome Value
  | [] => .done (.data .empty)
  | [e] => ev e
  | e :: e' :: es => do
    let _ ← ev e
    evalBody ev (e' :: es)

/-- Calls a procedure; `ev` evaluates the expressions of its body. -/
def applyValue (ev : Env → Expr → Outcome Value) (f : Value) (operands : List Value) :
    Outcome Value :=
  match f with
  | .closure params body env =>
    if params.length = operands.length then
      evalBody (ev (Env.insertAll env params operands)) body
    else .failed (.arity params.length operands.length)
  | .prim name => do
    let d ← applyPrim name operands
    .done (.data d)
  | .data _ => .failed .notCallable

def eval (onDict : DictRule) (globals : Env) : Nat → Env → Expr → Outcome Value
  | 0, _, _ => .outOfFuel
  | fuel + 1, env, e =>
    match e with
    | .number x => .done (.data (.number x))
    | .bool b => .done (.data (.bool b))
    | .str s => .done (.data (.str s))
    | .literal d => .done (.data d)
    | .prim name => .done (.prim name)
    | .var name =>
      match (env.get? name).or (globals.get? name) with
      | some v => .done v
      | none => .failed (.unbound name)
    | .cond test yes no => do
      match ← eval onDict globals fuel env test with
      | .data (.bool false) => eval onDict globals fuel env no
      | _ => eval onDict globals fuel env yes
    | .lambda params body => .done (.closure params body env)
    | .app operator operands => do
      let f ← eval onDict globals fuel env operator
      let vs ← Outcome.collect (eval onDict globals fuel env) operands
      applyValue (eval onDict globals fuel) f vs
    | .letIn bindings body => do
      let vs ← Outcome.collect (fun b => eval onDict globals fuel env b.value) bindings
      evalBody (eval onDict globals fuel (env.insertAll (bindings.map Binding.name) vs)) body
    | .dict entries => onDict entries

/-- Runs forms in order. Gives the globals as they are at the end, which after an error are those
at the time of the error, and the value of the last bare expression; `last` is the value so
far. -/
def runForms (onDict : DictRule) (fuel : Nat) (globals : Env) (last : Option Value) :
    List Form → Env × Outcome (Option Value)
  | [] => (globals, .done last)
  | .define name value :: fs =>
    match eval onDict globals fuel [] value with
    | .done v => runForms onDict fuel (globals.insert name v) last fs
    | .failed e => (globals, .failed e)
    | .outOfFuel => (globals, .outOfFuel)
  | .expr value :: fs =>
    match eval onDict globals fuel [] value with
    | .done v => runForms onDict fuel globals (some v) fs
    | .failed e => (globals, .failed e)
    | .outOfFuel => (globals, .outOfFuel)

/-- **Runs a program** under given globals. -/
def Program.run (onDict : DictRule) (fuel : Nat) (globals : Env) (p : Program) :
    Env × Outcome (Option Value) :=
  runForms onDict fuel globals none p.forms

end L32
