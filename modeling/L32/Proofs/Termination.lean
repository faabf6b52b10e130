import L32.Proofs.Simulation

set_option autoImplicit false

/-! # Evaluation without fuel

More fuel never changes a result (`eval_of_le`, `runForms_of_le`): the simulation of evaluation by
itself, with equality as the relation. So it makes sense to speak of the result of an expression or
a program without naming the fuel: `Evaluates` and `Program.Runs` say that with some fuel the
evaluation ends, in a value or an error of the program. There is only one way for an evaluation to
end (`Evaluates.unique`). -/

namespace L32

/-! ## More fuel -/

/-- Equality is a simulation of every rule for dictionary literals by itself. -/
theorem simulation_eq (rule : DictRule) : Simulation (fun _ => False) rule rule Eq where
  parts := by
    rintro e _ rfl he
    exact .refl (fun _ _ => rfl) he
  dict := by
    rintro entries _ rfl globals fuel env
    exact .refl (Value.Related.refl fun _ => rfl) _

/-- **More fuel keeps the outcome** of an evaluation that was not cut off. -/
theorem eval_of_le {rule : DictRule} {globals env : Env} {e : Expr} {n m : Nat} (hnm : n ≤ m)
    (h : eval rule globals n env e ≠ .outOfFuel) :
    eval rule globals m env e = eval rule globals n env e := by
  have hg : globals.MatchedBy (fun _ => False) Eq globals :=
    fun name => Or.inl ((Env.Related.refl (fun _ => rfl) globals).get? name)
  have hmatch := (simulation_eq rule).eval hg hnm (Env.Related.refl (fun _ => rfl) env) (Eq.refl e)
  exact hmatch.eq_of_ne (fun _ _ hv => hv.eq fun _ _ he => he) h

/-- More fuel keeps the globals and the outcome of a run that was not cut off. -/
theorem runForms_of_le {rule : DictRule} {n m : Nat} (hnm : n ≤ m) {fs : List Form} {globals : Env}
    {last : Option Value} (h : (runForms rule n globals last fs).2 ≠ .outOfFuel) :
    runForms rule m globals last fs = runForms rule n globals last fs := by
  induction fs generalizing globals last with
  | nil => rfl
  | cons f fs ih =>
      rw [runForms_cons] at h
      have hvalue : eval rule globals n [] f.expression ≠ .outOfFuel := by
        intro hcut
        rw [hcut] at h
        exact h rfl
      rw [runForms_cons, runForms_cons, eval_of_le hnm hvalue]
      cases hv : eval rule globals n [] f.expression with
      | done v =>
          rw [hv] at h
          exact ih h
      | failed err => rfl
      | outOfFuel => exact absurd hv hvalue

/-! ## How evaluation ends -/

namespace Outcome

variable {α : Type}

/-- The outcome of an evaluation that ends in a result or an error. -/
def ofExcept : Except EvalError α → Outcome α
  | .ok a => done a
  | .error err => failed err

theorem ofExcept_ne_outOfFuel (r : Except EvalError α) : ofExcept r ≠ outOfFuel := by
  cases r <;> simp [ofExcept]

theorem ofExcept_injective {r r' : Except EvalError α} (h : ofExcept r = ofExcept r') :
    r = r' := by
  cases r <;> cases r' <;> simp_all [ofExcept]

end Outcome

/-- The evaluation of an expression ends, with this value or this error. -/
def Evaluates (rule : DictRule) (globals env : Env) (e : Expr) (r : Except EvalError Value) :
    Prop :=
  ∃ fuel, eval rule globals fuel env e = .ofExcept r

/-- The run of a program ends, with these globals and this result or error. -/
def Program.Runs (rule : DictRule) (globals : Env) (p : Program) (globals' : Env)
    (r : Except EvalError (Option Value)) : Prop :=
  ∃ fuel, p.run rule fuel globals = (globals', .ofExcept r)

/-- There is one way for an evaluation to end. -/
theorem Evaluates.unique {rule : DictRule} {globals env : Env} {e : Expr}
    {r r' : Except EvalError Value} (h : Evaluates rule globals env e r)
    (h' : Evaluates rule globals env e r') : r = r' := by
  obtain ⟨n, hn⟩ := h
  obtain ⟨m, hm⟩ := h'
  -- whichever had less fuel was not cut off, so the other agrees with it
  rcases Nat.le_total n m with hle | hle
  · have hkeep := eval_of_le hle (hn ▸ Outcome.ofExcept_ne_outOfFuel r)
    rw [hn, hm] at hkeep
    exact (Outcome.ofExcept_injective hkeep).symm
  · have hkeep := eval_of_le hle (hm ▸ Outcome.ofExcept_ne_outOfFuel r')
    rw [hn, hm] at hkeep
    exact Outcome.ofExcept_injective hkeep

end L32
