import L32.Proofs.Termination

set_option autoImplicit false

/-! # A `let` is the call of a procedure

A `let` and the call of a procedure whose parameters are the bound names, on the bound values, lead
to the same scope in different ways. A `let` may be read as going from one binding to the next: the
value is evaluated outside the scope and joins it at once (`Env.bindEach`). A call evaluates all of
its operands first, looks whether they are as many as the parameters, and then extends the
environment that the procedure has kept.

Both are the same (`bindEach_eq_collect`): the first value that fails decides, the last of a
repeated name counts, and a body sees the scope only when it is complete. `eval_letIn` and
`eval_app_lambda` say so for one step of the evaluator, and the main statement
`let_evaluates_as_call` for evaluations as a whole. -/

namespace L32

/-! ## Values in order -/

namespace Outcome

variable {α β γ : Type}

theorem bind_assoc (x : Outcome α) (f : α → Outcome β) (g : β → Outcome γ) :
    (x >>= f) >>= g = x >>= fun a => f a >>= g := by
  cases x <;> rfl

theorem collect_map (f : β → Outcome γ) (g : α → β) (as : List α) :
    collect f (as.map g) = collect (fun a => f (g a)) as := by
  induction as with
  | nil => rfl
  | cons a as ih => rw [List.map_cons, collect, collect, ih]

theorem bind_eq_done {x : Outcome α} {f : α → Outcome β} {b : β} :
    x >>= f = done b ↔ ∃ a, x = done a ∧ f a = done b := by
  cases x with
  | done a => simp
  | failed err => simp
  | outOfFuel => simp

/-- There is one result for each member. -/
theorem length_of_collect {f : α → Outcome β} {as : List α} {bs : List β}
    (h : collect f as = done bs) : bs.length = as.length := by
  induction as generalizing bs with
  | nil =>
      cases h
      rfl
  | cons a as ih =>
      obtain ⟨b, _, hrest⟩ := bind_eq_done.1 h
      obtain ⟨bs', hbs', hcons⟩ := bind_eq_done.1 hrest
      cases hcons
      rw [List.length_cons, List.length_cons, ih hbs']

end Outcome

/-! ## The scope of a `let` -/

/-- Extends an environment by one binding after the other. The values are evaluated by `ev`, which
does not see the extension. -/
def Env.bindEach (ev : Expr → Outcome Value) (scope : Env) :
    List (Binding Expr) → Outcome Env
  | [] => .done scope
  | b :: bs => do
    let v ← ev b.value
    bindEach ev (scope.insert b.name v) bs

/-- **To bind each value at once is to evaluate all values and bind them then.** -/
theorem Env.bindEach_eq_collect (ev : Expr → Outcome Value) (scope : Env)
    (bs : List (Binding Expr)) :
    scope.bindEach ev bs = (do
      let vs ← Outcome.collect (fun b => ev b.value) bs
      .done (scope.insertAll (bs.map Binding.name) vs)) := by
  induction bs generalizing scope with
  | nil => rfl
  | cons b bs ih =>
      rw [bindEach, Outcome.collect, Outcome.bind_assoc]
      congr 1
      funext v
      rw [ih, Outcome.bind_assoc]
      rfl

section Step

variable {rule : DictRule} {globals env : Env} {bindings : List (Binding Expr)} {body : List Expr}

theorem eval_letIn (n : Nat) :
    eval rule globals (n + 1) env (.letIn bindings body) = (do
      let scope ← env.bindEach (eval rule globals n env) bindings
      evalBody (eval rule globals n scope) body) := by
  rw [Env.bindEach_eq_collect, Outcome.bind_assoc]
  rfl

/-- The procedure keeps the environment in which the call stands, and as many operands as it has
parameters arrive. So that environment is extended as by the `let`. -/
theorem eval_app_lambda (n : Nat) :
    eval rule globals (n + 2) env
        (.app (.lambda (bindings.map Binding.name) body) (bindings.map Binding.value)) = (do
      let scope ← env.bindEach (eval rule globals (n + 1) env) bindings
      evalBody (eval rule globals (n + 1) scope) body) := by
  rw [Env.bindEach_eq_collect, Outcome.bind_assoc]
  -- the procedure is a value after one step
  show (Outcome.collect (eval rule globals (n + 1) env) (bindings.map Binding.value) >>=
    applyValue (eval rule globals (n + 1))
      (.closure (bindings.map Binding.name) body env)) = _
  rw [Outcome.collect_map]
  cases hvs : Outcome.collect (fun b => eval rule globals (n + 1) env b.value) bindings with
  | done vs =>
      have hlength : (bindings.map Binding.name).length = vs.length := by
        rw [List.length_map, Outcome.length_of_collect hvs]
      rw [Outcome.done_bind, Outcome.done_bind, Outcome.done_bind, applyValue, if_pos hlength]
  | failed err => rfl
  | outOfFuel => rfl

end Step

/-! ## The main statement -/

/-- A result is found with any fuel from some point on. -/
theorem evaluates_iff_exists_add {rule : DictRule} {globals env : Env} {e : Expr}
    {r : Except EvalError Value} (k : Nat) :
    Evaluates rule globals env e r ↔ ∃ n, eval rule globals (n + k) env e = .ofExcept r := by
  constructor
  · rintro ⟨n, hn⟩
    refine ⟨n, ?_⟩
    rw [eval_of_le (Nat.le_add_right n k) (hn ▸ Outcome.ofExcept_ne_outOfFuel r), hn]
  · rintro ⟨n, hn⟩
    exact ⟨n + k, hn⟩

/-- **A `let` is the call of a procedure**, under all globals and in every environment, also with
repeated names and with an empty body.

* A `let` goes from one binding to the next, and its body sees the scope that this leads to.
* With the same fuel the outcome of the call is the same, once there is enough for it to make its
  procedure.
* So the evaluation of the one ends exactly if that of the other does, and with the same value or
  the same error. -/
theorem let_evaluates_as_call (rule : DictRule) (globals env : Env)
    (bindings : List (Binding Expr)) (body : List Expr) :
    (∀ fuel, eval rule globals (fuel + 1) env (.letIn bindings body) = (do
      let scope ← env.bindEach (eval rule globals fuel env) bindings
      evalBody (eval rule globals fuel scope) body))
    ∧ (∀ fuel, eval rule globals (fuel + 2) env (.letIn bindings body)
      = eval rule globals (fuel + 2) env
          (.app (.lambda (bindings.map Binding.name) body) (bindings.map Binding.value)))
    ∧ ∀ r, Evaluates rule globals env (.letIn bindings body) r
        ↔ Evaluates rule globals env
            (.app (.lambda (bindings.map Binding.name) body) (bindings.map Binding.value)) r := by
  have hstep : ∀ fuel, eval rule globals (fuel + 2) env (.letIn bindings body)
      = eval rule globals (fuel + 2) env
          (.app (.lambda (bindings.map Binding.name) body) (bindings.map Binding.value)) := by
    intro fuel
    rw [eval_letIn, eval_app_lambda]
  refine ⟨eval_letIn, hstep, fun r => ?_⟩
  -- a result that is found with less fuel than the call needs is also found with more
  rw [evaluates_iff_exists_add 2, evaluates_iff_exists_add 2]
  simp only [hstep]

/-- A repeated name, and a value that speaks of the name outside: the last of the two counts, and it
is the outer value. -/
example : eval refuseDict [] 2 [("x", .data (.str "outer"))]
      (.letIn [⟨"x", .bool true⟩, ⟨"x", .var "x"⟩] [.var "x"])
    = .done (.data (.str "outer")) := rfl

end L32
