import L32.Eval.Outcome
import L32.SchemeText

set_option autoImplicit false

/-! # Values and primitive operators

A value is data, a procedure with the environment in which it was made, or a primitive operator.
An environment is a list of names with their values in which no name occurs twice:
`Env.insert` replaces the value of a name in its place, and puts a new name at the end.

`applyPrim` is what the primitive operators do. They look at their operands from left to right
and only at those they need, so the first unsuitable one decides about the error, and operands in
excess are not looked at. -/

namespace L32

inductive Value where
  | data (d : Datum)
  | closure (params : List String) (body : List Expr) (env : List (String × Value))
  | prim (name : String)
  deriving Inhabited

abbrev Env := List (String × Value)

namespace Env

def get? (env : Env) (name : String) : Option Value :=
  match env with
  | [] => none
  | (n, v) :: rest => if n = name then some v else get? rest name

/-- Gives a name a value, in the place of the one that it had. -/
def insert (env : Env) (name : String) (value : Value) : Env :=
  match env with
  | [] => [(name, value)]
  | (n, v) :: rest => if n = name then (n, value) :: rest else (n, v) :: insert rest name value

@[simp] theorem get?_insert_self (env : Env) (name : String) (value : Value) :
    (env.insert name value).get? name = some value := by
  induction env with
  | nil => simp [insert, get?]
  | cons binding rest ih =>
      obtain ⟨n, v⟩ := binding
      by_cases h : n = name <;> simp [insert, get?, h, ih]

theorem get?_insert_of_ne (env : Env) {name other : String} (value : Value) (h : name ≠ other) :
    (env.insert name value).get? other = env.get? other := by
  induction env with
  | nil => simp [insert, get?, h]
  | cons binding rest ih =>
      obtain ⟨n, v⟩ := binding
      by_cases hn : n = name
      · simp [insert, get?, hn, h]
      · simp [insert, get?, hn, ih]

/-- Giving a name the value that it has changes nothing. -/
theorem insert_eq_self (env : Env) {name : String} {value : Value}
    (h : env.get? name = some value) : env.insert name value = env := by
  induction env with
  | nil => simp [get?] at h
  | cons binding rest ih =>
      obtain ⟨n, v⟩ := binding
      by_cases hn : n = name
      · simp_all [insert, get?]
      · simp_all [insert, get?]

/-- Gives several names their values, from the front, so that the last of a repeated name
counts. -/
def insertAll (env : Env) : List String → List Value → Env
  | name :: names, value :: values => insertAll (env.insert name value) names values
  | _, _ => env

end Env

/-! ## Primitive operators -/

/-- The operand at a position, which has to be data. -/
def dataOperand (operands : List Value) (i : Nat) : Outcome Datum :=
  match operands[i]? with
  | some (.data d) => .done d
  | some _ => .failed (.unsupported "procedure as data")
  | none => .failed (.arity (i + 1) operands.length)

/-- The operand at a position, which has to be a number. -/
def numberOperand (operands : List Value) (i : Nat) : Outcome Float := do
  let d ← dataOperand operands i
  match d with
  | .number x => .done x
  | d => .failed (.unsupported ("not a number: " ++ d.toScheme))

def numberOperands (operands : List Value) : Outcome (Float × Float) := do
  let x ← numberOperand operands 0
  let y ← numberOperand operands 1
  .done (x, y)

/-- Whether two values are identical as far as `eq?` can tell: a pair is never identical to
anything. -/
def Datum.identical (a b : Datum) : Bool :=
  (a.isAtom || a.isEmpty) && a == b

def applyPrim (name : String) (operands : List Value) : Outcome Datum :=
  match name with
  | "car" => do
    match ← dataOperand operands 0 with
    | .pair h _ => .done h
    | .empty => .failed (.emptyAccess "car")
    | _ => .failed (.notAPair "car")
  | "cdr" => do
    match ← dataOperand operands 0 with
    | .pair _ t => .done t
    | .empty => .failed (.emptyAccess "cdr")
    | _ => .failed (.notAPair "cdr")
  | "cons" => do
    let h ← dataOperand operands 0
    let t ← dataOperand operands 1
    .done (.pair h t)
  | "eq?" => do
    let a ← dataOperand operands 0
    let b ← dataOperand operands 1
    .done (.bool (a.identical b))
  | "+" => do
    let (x, y) ← numberOperands operands
    .done (.number (x + y))
  | "-" => do
    let (x, y) ← numberOperands operands
    .done (.number (x - y))
  | ">" => do
    let (x, y) ← numberOperands operands
    .done (.bool (decide (y < x)))
  | "<" => do
    let (x, y) ← numberOperands operands
    .done (.bool (decide (x < y)))
  | _ => .failed (.unsupported name)

end L32
