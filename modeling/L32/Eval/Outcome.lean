set_option autoImplicit false

/-! # Outcomes of evaluation

Evaluation ends with a result, ends with an error of the program, or is cut off because the fuel
that bounds it is used up. The three are kept apart, so that what a program does and how long it
was allowed to run are never confused: being cut off says nothing about the program. -/

namespace L32

inductive EvalError where
  /-- A variable without a value. -/
  | unbound (name : String)
  /-- `car` or `cdr` of the empty list. -/
  | emptyAccess (operator : String)
  /-- `car` or `cdr` of something that is no list at all. -/
  | notAPair (operator : String)
  /-- A call of something that is not a procedure. -/
  | notCallable
  /-- A call with the wrong number of operands. -/
  | arity (expected got : Nat)
  /-- Something that evaluation does not cover. -/
  | unsupported (text : String)
  deriving DecidableEq, Repr

inductive Outcome (α : Type) where
  | done (result : α)
  | failed (error : EvalError)
  | outOfFuel

namespace Outcome

variable {α β : Type}

/-- Goes on with the result; an error, or being cut off, ends the whole. -/
def bind : Outcome α → (α → Outcome β) → Outcome β
  | done a, f => f a
  | failed e, _ => failed e
  | outOfFuel, _ => outOfFuel

instance : Monad Outcome where
  pure := done
  bind := bind

@[simp] theorem done_bind (a : α) (f : α → Outcome β) : (done a >>= f) = f a := rfl

@[simp] theorem failed_bind (e : EvalError) (f : α → Outcome β) :
    (failed e >>= f) = failed e := rfl

@[simp] theorem outOfFuel_bind (f : α → Outcome β) : (outOfFuel >>= f) = outOfFuel := rfl

/-- Goes through a list from the front and collects the results. -/
def collect (f : α → Outcome β) : List α → Outcome (List β)
  | [] => done []
  | a :: as => do
    let b ← f a
    let bs ← collect f as
    done (b :: bs)

end Outcome

end L32
