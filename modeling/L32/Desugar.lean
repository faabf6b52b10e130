import L32.Dictionary

set_option autoImplicit false

/-! # Programs without dictionary literals

`Expr.desugar` removes every dictionary literal from an expression, the inner ones first, and
leaves everything else as it is. `Program.desugar` does so form by form and puts the definition of
the lookup procedure in front.

The first failure decides, in this order: the parts of a node before the node, from left to
right; the bound values of a `let` before its body; and the key of an entry before its value. -/

namespace L32

mutual

/-- The expression with each dictionary literal replaced by a call of the lookup procedure. -/
def Expr.desugar (policy : ValuePolicy) : Expr → Except DesugarError Expr
  | .number x => .ok (.number x)
  | .bool b => .ok (.bool b)
  | .str s => .ok (.str s)
  | .var name => .ok (.var name)
  | .prim name => .ok (.prim name)
  | .literal d => .ok (.literal d)
  | .cond test yes no => do
    let t ← test.desugar policy
    let y ← yes.desugar policy
    let n ← no.desugar policy
    .ok (.cond t y n)
  | .lambda params body => do
    let es ← Expr.desugarAll policy body
    .ok (.lambda params es)
  | .app operator operands => do
    let f ← operator.desugar policy
    let es ← Expr.desugarAll policy operands
    .ok (.app f es)
  | .letIn bindings body => do
    let bs ← Expr.desugarBindings policy bindings
    let es ← Expr.desugarAll policy body
    .ok (.letIn bs es)
  | .dict entries => do
    let es ← Expr.desugarEntries policy entries
    lookupCall policy es

def Expr.desugarAll (policy : ValuePolicy) : List Expr → Except DesugarError (List Expr)
  | [] => .ok []
  | e :: es => do
    let e' ← e.desugar policy
    let es' ← Expr.desugarAll policy es
    .ok (e' :: es')

def Expr.desugarBindings (policy : ValuePolicy) :
    List (Binding Expr) → Except DesugarError (List (Binding Expr))
  | [] => .ok []
  | ⟨name, e⟩ :: bs => do
    let e' ← e.desugar policy
    let bs' ← Expr.desugarBindings policy bs
    .ok (⟨name, e'⟩ :: bs')

def Expr.desugarEntries (policy : ValuePolicy) :
    List (Entry Expr) → Except DesugarError (List (Entry Expr))
  | [] => .ok []
  | ⟨k, e⟩ :: es => do
    let k' ← k.desugar policy
    let e' ← e.desugar policy
    let es' ← Expr.desugarEntries policy es
    .ok (⟨k', e'⟩ :: es')

end

def Form.desugar (policy : ValuePolicy) : Form → Except DesugarError Form
  | .define name value => do
    let e ← value.desugar policy
    .ok (.define name e)
  | .expr value => do
    let e ← value.desugar policy
    .ok (.expr e)

def Form.desugarAll (policy : ValuePolicy) : List Form → Except DesugarError (List Form)
  | [] => .ok []
  | f :: fs => do
    let f' ← f.desugar policy
    let fs' ← Form.desugarAll policy fs
    .ok (f' :: fs')

/-- The program with each form desugared, and no definition added. -/
def Program.desugarForms (policy : ValuePolicy) (p : Program) : Except DesugarError Program := do
  let fs ← Form.desugarAll policy p.forms
  .ok ⟨fs⟩

/-- **The desugared program**: the definition of the lookup procedure, then the forms without
their dictionary literals. -/
def Program.desugar (policy : ValuePolicy) (p : Program) : Except DesugarError Program := do
  let q ← p.desugarForms policy
  .ok ⟨lookupDefinition :: q.forms⟩

end L32
