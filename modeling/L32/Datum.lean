set_option autoImplicit false

/-! # Quoted data

A `Datum` is what a quotation denotes: a symbol, a number, a truth value, a string, a pair, or
the empty list. Lists are chains of pairs that end in the empty list; a chain that ends in
anything else is dotted. `Datum.ofList` and `Datum.items` go between Lean lists and chains. -/

namespace L32

/-- A quoted value. -/
inductive Datum where
  | symbol (name : String)
  | number (value : Float)
  | bool (value : Bool)
  | str (value : String)
  | pair (head tail : Datum)
  | empty
  deriving Inhabited

namespace Datum

/-! ## Lists as chains of pairs -/

/-- The chain of pairs that holds the values in order and ends in `last`. -/
def chain (last : Datum) : List Datum → Datum
  | [] => last
  | d :: ds => pair d (chain last ds)

def ofList (ds : List Datum) : Datum :=
  chain empty ds

/-- The heads of the pairs of a chain, in order; none for what is not a pair. -/
def items : Datum → List Datum
  | pair h t => h :: t.items
  | _ => []

/-- What stands at the end of a chain: the first tail that is not a pair. -/
def final : Datum → Datum
  | pair _ t => t.final
  | d => d

/-- Whether the value is a proper list: a chain that ends in the empty list. -/
def isList : Datum → Bool
  | pair _ t => t.isList
  | empty => true
  | _ => false

@[simp] theorem items_chain (last : Datum) (ds : List Datum) :
    (chain last ds).items = ds ++ last.items := by
  induction ds with
  | nil => rfl
  | cons d ds ih =>
      simp [chain, items, ih]

@[simp] theorem final_chain (last : Datum) (ds : List Datum) :
    (chain last ds).final = last.final := by
  induction ds with
  | nil => rfl
  | cons d ds ih =>
      simp [chain, final, ih]

@[simp] theorem isList_chain (last : Datum) (ds : List Datum) :
    (chain last ds).isList = last.isList := by
  induction ds with
  | nil => rfl
  | cons d ds ih =>
      simp [chain, isList, ih]

/-- Every value is the chain of its items onto what stands at its end. -/
theorem chain_final_items (d : Datum) : chain d.final d.items = d := by
  induction d with
  | pair h t _ iht =>
      simp [final, items, chain, iht]
  | symbol _ | number _ | bool _ | str _ | empty => rfl

/-! ## Kinds and parts -/

def isSymbol : Datum → Bool
  | symbol _ => true
  | _ => false

def isPair : Datum → Bool
  | pair _ _ => true
  | _ => false

def isEmpty : Datum → Bool
  | empty => true
  | _ => false

/-- Whether the value is neither a pair nor the empty list. -/
def isAtom : Datum → Bool
  | pair _ _ => false
  | empty => false
  | _ => true

def symbol? : Datum → Option String
  | symbol name => some name
  | _ => none

def head? : Datum → Option Datum
  | pair h _ => some h
  | _ => none

def tail? : Datum → Option Datum
  | pair _ t => some t
  | _ => none

/-! ## Equality

Numbers are compared as numbers: a NaN equals nothing, and the two zeros are equal. -/

/-- Whether two values are equal, numbers being compared as numbers. -/
def same : Datum → Datum → Bool
  | symbol a, symbol b => a == b
  | number x, number y => x == y
  | bool a, bool b => a == b
  | str a, str b => a == b
  | pair a b, pair c d => a.same c && b.same d
  | empty, empty => true
  | _, _ => false

instance : BEq Datum := ⟨same⟩

end Datum

end L32
