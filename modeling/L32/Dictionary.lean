import L32.Quotation

set_option autoImplicit false

/-! # Dictionaries as association lists

What a dictionary literal stands for. Its entries become one quoted association list, a list of
pairs of a symbol and a value, and the literal becomes a call of the lookup procedure `dict` on
that list. The call gives a procedure that maps a symbol to the value of the first entry with
that key.

The lookup procedure is an ordinary definition of the language, `lookupDefinition`, so a program
without dictionary literals is all that is left. -/

namespace L32

/-- The name under which the lookup procedure is defined. -/
def lookupName : String := "dict"

/-- The name that a key stands for: a key is a variable or a quoted symbol. -/
def Expr.keyName : Expr → Except DesugarError String
  | .var name => .ok name
  | .literal (.symbol name) => .ok name
  | e => .error (.malformedKey e.toScheme)

/-- The pair of an entry. The key is checked before the value. -/
def Entry.toDatum (policy : ValuePolicy) (entry : Entry Expr) : Except DesugarError Datum := do
  let name ← entry.key.keyName
  let value ← policy.quoteValue entry.value
  .ok (.pair (.symbol name) value)

/-- The pairs of several entries, in order; the first entry that fails decides. -/
def Entry.toData (policy : ValuePolicy) : List (Entry Expr) → Except DesugarError (List Datum)
  | [] => .ok []
  | entry :: entries => do
    let d ← entry.toDatum policy
    let ds ← Entry.toData policy entries
    .ok (d :: ds)

/-- The call that a dictionary of these entries becomes. The entries are taken as they are. -/
def lookupCall (policy : ValuePolicy) (entries : List (Entry Expr)) :
    Except DesugarError Expr := do
  let ds ← Entry.toData policy entries
  .ok (.app (.var lookupName) [.literal (.ofList ds)])

def Expr.primCall (name : String) (operands : List Expr) : Expr :=
  .app (.prim name) operands

/-- The lookup procedure: it takes an association list and gives a procedure that takes a key and
goes through the list from the front. On an empty list, `car` fails. -/
def lookupProcedure : Expr :=
  let pairs := Expr.var "pairs"
  let key := Expr.var "k"
  let first := Expr.primCall "car" [pairs]
  .lambda ["pairs"] [
    .lambda ["k"] [
      .cond (.primCall "eq?" [.primCall "car" [first], key])
        (.primCall "cdr" [first])
        (.app (.app (.var lookupName) [.primCall "cdr" [pairs]]) [key])]]

def lookupDefinition : Form :=
  .define lookupName lookupProcedure

end L32
