import L32.Datum

set_option autoImplicit false

/-! # Expressions and programs

The expressions of L32, a small Scheme-like language whose one unusual construct is the
dictionary literal `(dict (key value) …)`, and the programs made of them. Bindings and entries
are records over the type of expressions, so that a list of them is an ordinary list.

Functions over expressions come in groups: one for expressions and one for each kind of list in
which expressions occur. -/

namespace L32

/-- A name bound to a value in a `let`. -/
structure Binding (α : Type) where
  name : String
  value : α

/-- A key and its value in a dictionary literal. -/
structure Entry (α : Type) where
  key : α
  value : α

inductive Expr where
  | number (value : Float)
  | bool (value : Bool)
  | str (value : String)
  | var (name : String)
  /-- A primitive operator. -/
  | prim (name : String)
  /-- Quoted data. -/
  | literal (value : Datum)
  | cond (test yes no : Expr)
  | lambda (params : List String) (body : List Expr)
  | app (operator : Expr) (operands : List Expr)
  | letIn (bindings : List (Binding Expr)) (body : List Expr)
  | dict (entries : List (Entry Expr))
  deriving Inhabited

/-- A top-level form: a definition or a bare expression. -/
inductive Form where
  | define (name : String) (value : Expr)
  | expr (value : Expr)

structure Program where
  forms : List Form

def Form.expression : Form → Expr
  | define _ value => value
  | expr value => value

namespace Expr

/-! ## Kinds -/

/-- Whether the expression is a number, a truth value or a string. -/
def isAtomic : Expr → Bool
  | number _ | bool _ | str _ => true
  | _ => false

def isLeaf : Expr → Bool
  | number _ | bool _ | str _ | var _ | prim _ | literal _ => true
  | _ => false

def isDict : Expr → Bool
  | dict _ => true
  | _ => false

def prim? : Expr → Option String
  | prim name => some name
  | _ => none

def var? : Expr → Option String
  | var name => some name
  | _ => none

end Expr

/-! ## Dictionary literals inside an expression -/

mutual

/-- Whether a dictionary literal occurs in the expression, at any depth. -/
def Expr.hasDict : Expr → Bool
  | .number _ | .bool _ | .str _ | .var _ | .prim _ | .literal _ => false
  | .cond test yes no => test.hasDict || yes.hasDict || no.hasDict
  | .lambda _ body => Expr.anyHasDict body
  | .app operator operands => operator.hasDict || Expr.anyHasDict operands
  | .letIn bindings body => Expr.anyBindingHasDict bindings || Expr.anyHasDict body
  | .dict _ => true

def Expr.anyHasDict : List Expr → Bool
  | [] => false
  | e :: es => e.hasDict || Expr.anyHasDict es

def Expr.anyBindingHasDict : List (Binding Expr) → Bool
  | [] => false
  | ⟨_, e⟩ :: bs => e.hasDict || Expr.anyBindingHasDict bs

end

def Form.hasDict (f : Form) : Bool :=
  f.expression.hasDict

def Program.hasDict (p : Program) : Bool :=
  p.forms.any Form.hasDict

/-! ## Equality

As for data, numbers are compared as numbers. -/

mutual

/-- Whether two expressions are equal, numbers being compared as numbers. -/
def Expr.same : Expr → Expr → Bool
  | .number x, .number y => x == y
  | .bool a, .bool b => a == b
  | .str a, .str b => a == b
  | .var a, .var b => a == b
  | .prim a, .prim b => a == b
  | .literal a, .literal b => a == b
  | .cond t₁ y₁ n₁, .cond t₂ y₂ n₂ => t₁.same t₂ && y₁.same y₂ && n₁.same n₂
  | .lambda p₁ b₁, .lambda p₂ b₂ => p₁ == p₂ && Expr.allSame b₁ b₂
  | .app f₁ a₁, .app f₂ a₂ => f₁.same f₂ && Expr.allSame a₁ a₂
  | .letIn d₁ b₁, .letIn d₂ b₂ => Expr.allBindingsSame d₁ d₂ && Expr.allSame b₁ b₂
  | .dict d₁, .dict d₂ => Expr.allEntriesSame d₁ d₂
  | _, _ => false

def Expr.allSame : List Expr → List Expr → Bool
  | [], [] => true
  | a :: as, b :: bs => a.same b && Expr.allSame as bs
  | _, _ => false

def Expr.allBindingsSame : List (Binding Expr) → List (Binding Expr) → Bool
  | [], [] => true
  | ⟨m, a⟩ :: as, ⟨n, b⟩ :: bs => m == n && a.same b && Expr.allBindingsSame as bs
  | _, _ => false

def Expr.allEntriesSame : List (Entry Expr) → List (Entry Expr) → Bool
  | [], [] => true
  | ⟨j, a⟩ :: as, ⟨k, b⟩ :: bs => j.same k && a.same b && Expr.allEntriesSame as bs
  | _, _ => false

end

instance : BEq Expr := ⟨Expr.same⟩

def Form.same : Form → Form → Bool
  | define m a, define n b => m == n && a == b
  | expr a, expr b => a == b
  | _, _ => false

instance : BEq Form := ⟨Form.same⟩

def Program.same (p q : Program) : Bool :=
  p.forms == q.forms

instance : BEq Program := ⟨Program.same⟩

end L32
