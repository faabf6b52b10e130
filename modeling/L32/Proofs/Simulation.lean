import L32.Eval.Run
import L32.Proofs.Tree

set_option autoImplicit false

/-! # Two evaluations side by side

One theorem about two evaluations that run in step: under different fuel, with different rules for
dictionary literals, on expressions that a relation `R` connects, in environments whose closures
have `R`-related bodies. It is used with `R` the equality (more fuel changes nothing) and with `R`
the desugaring (a desugared program does what the program did).

* `Outcome.MatchedBy excused S o o'`: the second outcome is the first up to `S`, where the first is
  decided. Being cut off matches anything, and so does an error that is `excused`.
* `Value.Related R`: the same value but for the bodies of closures, which `R` relates, also in the
  environments that closures have captured.
* `Simulation`: what has to be known of `R`, for one construct at a time.

From the step `Simulation` the evaluation of an expression follows by induction on the fuel
(`Simulation.eval`), and the run of a program by induction on its forms (`Simulation.runForms`). -/

namespace L32

/-! ## Outcomes -/

/-- The first outcome is matched by the second: they are the same error, or results that `S`
relates. A first outcome that is an excused error, or that was cut off, is matched by anything. -/
inductive Outcome.MatchedBy {α β : Type} (excused : EvalError → Prop) (S : α → β → Prop) :
    Outcome α → Outcome β → Prop
  | done {a : α} {b : β} (h : S a b) : MatchedBy excused S (.done a) (.done b)
  | failed (err : EvalError) : MatchedBy excused S (.failed err) (.failed err)
  | excused {err : EvalError} (h : excused err) (o : Outcome β) :
      MatchedBy excused S (.failed err) o
  | outOfFuel (o : Outcome β) : MatchedBy excused S .outOfFuel o

namespace Outcome

variable {excused : EvalError → Prop} {α β γ δ : Type}

theorem MatchedBy.bind {S : α → β → Prop} {T : γ → δ → Prop} {x : Outcome α} {y : Outcome β}
    {f : α → Outcome γ} {g : β → Outcome δ} (h : x.MatchedBy excused S y)
    (hfg : ∀ a b, S a b → (f a).MatchedBy excused T (g b)) :
    (x >>= f).MatchedBy excused T (y >>= g) := by
  cases h with
  | done h => exact hfg _ _ h
  | failed err => exact .failed err
  | excused h o => exact .excused h _
  | outOfFuel o => exact .outOfFuel _

theorem MatchedBy.refl {S : α → α → Prop} (hS : ∀ a, S a a) (o : Outcome α) :
    o.MatchedBy excused S o := by
  cases o with
  | done a => exact .done (hS a)
  | failed err => exact .failed err
  | outOfFuel => exact .outOfFuel _

/-- Where nothing is excused, an outcome that is decided is kept. -/
theorem MatchedBy.eq_of_ne {S : α → α → Prop} (hS : ∀ a b, S a b → a = b) {o o' : Outcome α}
    (h : o.MatchedBy (fun _ => False) S o') (ho : o ≠ .outOfFuel) : o' = o := by
  cases h with
  | done h => rw [hS _ _ h]
  | failed err => rfl
  | excused h _ => exact h.elim
  | outOfFuel _ => exact absurd rfl ho

theorem MatchedBy.collect {R : α → β → Prop} {S : γ → δ → Prop} {f : α → Outcome γ}
    {g : β → Outcome δ} {as : List α} {bs : List β} (h : List.Forall₂ R as bs)
    (hfg : ∀ a b, R a b → (f a).MatchedBy excused S (g b)) :
    (collect f as).MatchedBy excused (List.Forall₂ S) (collect g bs) := by
  induction h with
  | nil => exact .done .nil
  | cons hab _ ih =>
      refine (hfg _ _ hab).bind fun c d hcd => ?_
      exact ih.bind fun cs ds hcds => .done (.cons hcd hcds)

end Outcome

/-! ## Values and environments -/

mutual

/-- The same value, but for the bodies of closures, which `R` relates. -/
inductive Value.Related (R : Expr → Expr → Prop) : Value → Value → Prop
  | data (d : Datum) : Value.Related R (.data d) (.data d)
  | prim (name : String) : Value.Related R (.prim name) (.prim name)
  | closure (params : List String) {body body' : List Expr} {env env' : List (String × Value)}
      (hb : List.Forall₂ R body body') (henv : Env.Related R env env') :
      Value.Related R (.closure params body env) (.closure params body' env')

/-- The same names in the same order, with related values. -/
inductive Env.Related (R : Expr → Expr → Prop) :
    List (String × Value) → List (String × Value) → Prop
  | nil : Env.Related R [] []
  | cons (name : String) {v v' : Value} {env env' : List (String × Value)}
      (hv : Value.Related R v v') (henv : Env.Related R env env') :
      Env.Related R ((name, v) :: env) ((name, v') :: env')

end

section Relations

variable {R : Expr → Expr → Prop}

mutual

theorem Value.Related.refl (hR : ∀ e, R e e) : ∀ v : Value, Value.Related R v v
  | .data d => .data d
  | .prim name => .prim name
  | .closure params _ env =>
      .closure params (List.forall₂_same.2 fun e _ => hR e) (Env.Related.refl hR env)

theorem Env.Related.refl (hR : ∀ e, R e e) : ∀ env : List (String × Value), Env.Related R env env
  | [] => .nil
  | (name, v) :: env => .cons name (Value.Related.refl hR v) (Env.Related.refl hR env)

end

mutual

theorem Value.Related.eq (hR : ∀ e e', R e e' → e = e') :
    ∀ {v v' : Value}, Value.Related R v v' → v = v'
  | _, _, .data _ => rfl
  | _, _, .prim _ => rfl
  | _, _, .closure params hb henv => by
      have hbody := hb.imp hR
      rw [List.forall₂_eq_eq_eq] at hbody
      rw [hbody, Env.Related.eq hR henv]

theorem Env.Related.eq (hR : ∀ e e', R e e' → e = e') :
    ∀ {env env' : List (String × Value)}, Env.Related R env env' → env = env'
  | _, _, .nil => rfl
  | _, _, .cons name hv henv => by rw [Value.Related.eq hR hv, Env.Related.eq hR henv]

end

theorem Env.Related.get? {env env' : Env} (h : Env.Related R env env') (name : String) :
    Option.Rel (Value.Related R) (env.get? name) (env'.get? name) := by
  induction env generalizing env' with
  | nil =>
      cases h
      exact .none
  | cons binding env ih =>
      cases h with
      | cons n hv henv =>
          simp only [Env.get?]
          by_cases hn : n = name
          · rw [if_pos hn, if_pos hn]
            exact .some hv
          · rw [if_neg hn, if_neg hn]
            exact ih henv

theorem Env.Related.insert {env env' : Env} (h : Env.Related R env env') (name : String)
    {v v' : Value} (hv : Value.Related R v v') :
    Env.Related R (env.insert name v) (env'.insert name v') := by
  induction env generalizing env' with
  | nil =>
      cases h
      exact .cons name hv .nil
  | cons binding env ih =>
      cases h with
      | cons n hw henv =>
          simp only [Env.insert]
          by_cases hn : n = name
          · rw [if_pos hn, if_pos hn]
            exact .cons n hv henv
          · rw [if_neg hn, if_neg hn]
            exact .cons n hw (ih henv)

theorem Env.Related.insertAll (names : List String) {vs vs' : List Value}
    (hvs : List.Forall₂ (Value.Related R) vs vs') {env env' : Env}
    (h : Env.Related R env env') :
    Env.Related R (env.insertAll names vs) (env'.insertAll names vs') := by
  induction hvs generalizing names env env' with
  | nil => cases names <;> exact h
  | cons hv _ ih =>
      cases names with
      | nil => exact h
      | cons name names => exact ih names (h.insert name hv)

/-! ## Primitive operators see no bodies -/

theorem getElem?_rel_of_forall₂ {α β : Type} {S : α → β → Prop} {as : List α} {bs : List β}
    (h : List.Forall₂ S as bs) (i : Nat) : Option.Rel S as[i]? bs[i]? := by
  induction h generalizing i with
  | nil => exact .none
  | cons hab _ ih =>
      cases i with
      | zero => exact .some hab
      | succ i => exact ih i

theorem dataOperand_eq_of_related {vs vs' : List Value}
    (h : List.Forall₂ (Value.Related R) vs vs') : dataOperand vs = dataOperand vs' := by
  funext i
  have hi := getElem?_rel_of_forall₂ h i
  -- besides the operand itself only the number of operands is read, for the error
  unfold dataOperand
  rw [h.length_eq]
  generalize vs[i]? = operand at hi ⊢
  generalize vs'[i]? = operand' at hi ⊢
  cases hi with
  | none => rfl
  | some hv => cases hv <;> rfl

theorem applyPrim_eq_of_related {vs vs' : List Value}
    (h : List.Forall₂ (Value.Related R) vs vs') (name : String) :
    applyPrim name vs = applyPrim name vs' := by
  have hdata := dataOperand_eq_of_related h
  have hnumber : numberOperands vs = numberOperands vs' := by
    simp only [numberOperands, numberOperand, hdata]
  simp only [applyPrim, hdata, hnumber]

end Relations

/-! ## Bodies and calls -/

section Calls

variable {excused : EvalError → Prop} {R : Expr → Expr → Prop}

theorem evalBody_matchedBy {ev ev' : Expr → Outcome Value} {body body' : List Expr}
    (hev : ∀ e e', R e e' → (ev e).MatchedBy excused (Value.Related R) (ev' e'))
    (hb : List.Forall₂ R body body') :
    (evalBody ev body).MatchedBy excused (Value.Related R) (evalBody ev' body') := by
  induction hb with
  | nil => exact .done (.data .empty)
  | cons he hrest ih =>
      -- the last expression gives the value, those before it are only evaluated
      cases hrest with
      | nil => exact hev _ _ he
      | cons he' hrest => exact (hev _ _ he).bind fun _ _ _ => ih

theorem applyValue_matchedBy {ev ev' : Env → Expr → Outcome Value} {f f' : Value}
    {vs vs' : List Value}
    (hev : ∀ env env', Env.Related R env env' → ∀ e e', R e e' →
      (ev env e).MatchedBy excused (Value.Related R) (ev' env' e'))
    (hf : Value.Related R f f') (hvs : List.Forall₂ (Value.Related R) vs vs') :
    (applyValue ev f vs).MatchedBy excused (Value.Related R) (applyValue ev' f' vs') := by
  cases hf with
  | data d => exact .failed _
  | prim name =>
      simp only [applyValue, applyPrim_eq_of_related hvs name]
      exact (Outcome.MatchedBy.refl (fun _ => rfl) _).bind fun d _ hd => hd ▸ .done (.data d)
  | closure params hb henv =>
      simp only [applyValue, ← hvs.length_eq]
      by_cases hlen : params.length = vs.length
      · rw [if_pos hlen, if_pos hlen]
        exact evalBody_matchedBy (hev _ _ (henv.insertAll params hvs)) hb
      · rw [if_neg hlen, if_neg hlen]
        exact .failed _

end Calls

/-! ## Expressions -/

/-- A relation between expressions is a simulation when related expressions are the same construct
with related parts, and when a dictionary literal, under the first rule, is matched by whatever it
is related to. -/
structure Simulation (excused : EvalError → Prop) (rule rule' : DictRule)
    (R : Expr → Expr → Prop) : Prop where
  parts : ∀ {e e' : Expr}, R e e' → e.isDict = false → e.Congruent R e'
  dict : ∀ {entries : List (Entry Expr)} {e' : Expr}, R (.dict entries) e' →
    ∀ (globals : Env) (fuel : Nat) (env : Env),
      (rule entries).MatchedBy excused (Value.Related R) (eval rule' globals (fuel + 1) env e')

/-- Every name has related values, or no value in both, or none in the first and that is
excused. -/
def Env.MatchedBy (excused : EvalError → Prop) (R : Expr → Expr → Prop) (globals globals' : Env) :
    Prop :=
  ∀ name, Option.Rel (Value.Related R) (globals.get? name) (globals'.get? name) ∨
    (globals.get? name = none ∧ excused (.unbound name))

section Eval

variable {excused : EvalError → Prop} {R : Expr → Expr → Prop} {rule rule' : DictRule}
  {globals globals' : Env}

theorem Env.MatchedBy.insert (h : globals.MatchedBy excused R globals') (name : String)
    {v v' : Value} (hv : Value.Related R v v') :
    (globals.insert name v).MatchedBy excused R (globals'.insert name v') := by
  intro other
  by_cases hn : name = other
  · subst hn
    left
    rw [Env.get?_insert_self, Env.get?_insert_self]
    exact .some hv
  · rw [Env.get?_insert_of_ne _ _ hn, Env.get?_insert_of_ne _ _ hn]
    exact h other

theorem map_name_eq_of_related {bs bs' : List (Binding Expr)}
    (h : List.Forall₂ (Binding.Related R) bs bs') :
    bs.map Binding.name = bs'.map Binding.name := by
  induction h with
  | nil => rfl
  | cons hb _ ih => rw [List.map_cons, List.map_cons, hb.name, ih]

theorem eval_var_matchedBy (hg : globals.MatchedBy excused R globals') {env env' : Env}
    (henv : Env.Related R env env') (name : String) (n m : Nat) :
    (eval rule globals (n + 1) env (.var name)).MatchedBy excused (Value.Related R)
      (eval rule' globals' (m + 1) env' (.var name)) := by
  have hlocal := henv.get? name
  simp only [eval]
  -- the globals count only where the name is not local, and then it is local in neither
  generalize env.get? name = own at hlocal ⊢
  generalize env'.get? name = own' at hlocal ⊢
  cases hlocal with
  | some hv => exact .done hv
  | none =>
      have hglobal := hg name
      simp only [Option.none_or]
      generalize globals.get? name = value at hglobal ⊢
      generalize globals'.get? name = value' at hglobal ⊢
      rcases hglobal with hrel | ⟨rfl, hexcused⟩
      · cases hrel with
        | some hv => exact .done hv
        | none => exact .failed _
      · exact .excused hexcused _

/-- **Evaluation respects a simulation**: with at least as much fuel, the second evaluation matches
the first. The induction is on the fuel of the first; the values that bodies and operands give stay
related, so that later calls find related closures. -/
theorem Simulation.eval (hsim : Simulation excused rule rule' R)
    (hg : globals.MatchedBy excused R globals') {n m : Nat} (hnm : n ≤ m) {env env' : Env}
    (henv : Env.Related R env env') {e e' : Expr} (he : R e e') :
    (L32.eval rule globals n env e).MatchedBy excused (Value.Related R)
      (L32.eval rule' globals' m env' e') := by
  induction n generalizing m env env' e e' with
  | zero => exact .outOfFuel _
  | succ n ih =>
      obtain ⟨m, rfl⟩ : ∃ k, m = k + 1 := ⟨m - 1, by omega⟩
      have hle : n ≤ m := by omega
      cases hdict : e.isDict with
      | true =>
          -- the only place where the two evaluations need not do the same
          cases e with
          | dict entries => exact hsim.dict he globals' m env'
          | _ => cases hdict
      | false =>
          cases hsim.parts he hdict with
          | leaf hleaf =>
              cases e with
              | number _ | bool _ | str _ | literal _ => exact .done (.data _)
              | prim name => exact .done (.prim name)
              | var name => exact eval_var_matchedBy hg henv name n m
              | _ => cases hleaf
          | cond ht hy hn =>
              simp only [L32.eval]
              refine (ih hle henv ht).bind fun v v' hv => ?_
              cases hv with
              | data d =>
                  split
                  · exact ih hle henv hn
                  · exact ih hle henv hy
              | prim name => exact ih hle henv hy
              | closure params hb hcl => exact ih hle henv hy
          | lambda params hb => exact .done (.closure params hb henv)
          | app hf ha =>
              simp only [L32.eval]
              refine (ih hle henv hf).bind fun f f' hff' => ?_
              refine (Outcome.MatchedBy.collect ha fun e e' he => ih hle henv he).bind
                fun vs vs' hvs => ?_
              exact applyValue_matchedBy (fun _ _ henv _ _ he => ih hle henv he) hff' hvs
          | letIn hd hb =>
              simp only [L32.eval]
              refine (Outcome.MatchedBy.collect hd fun b b' hbb' => ih hle henv hbb'.value).bind
                fun vs vs' hvs => ?_
              rw [← map_name_eq_of_related hd]
              exact evalBody_matchedBy (fun _ _ he => ih hle (henv.insertAll _ hvs) he) hb

/-! ## Programs -/

/-- What a form leaves to the forms after it once its expression has a value: the globals, and the
value of the last bare expression. -/
def Form.leave (f : Form) (v : Value) (globals : Env) (last : Option Value) : Env × Option Value :=
  match f with
  | .define name _ => (globals.insert name v, last)
  | .expr _ => (globals, some v)

/-- **One form of a run**, whichever kind it is. -/
theorem runForms_cons (rule : DictRule) (fuel : Nat) (globals : Env) (last : Option Value)
    (f : Form) (fs : List Form) :
    runForms rule fuel globals last (f :: fs) =
      match L32.eval rule globals fuel [] f.expression with
      | .done v =>
        runForms rule fuel (f.leave v globals last).1 (f.leave v globals last).2 fs
      | .failed err => (globals, .failed err)
      | .outOfFuel => (globals, .outOfFuel) := by
  cases f with
  | define name value => rfl
  | expr value => rfl

theorem Form.Related.leave {f f' : Form} (hf : f.Related R f') {v v' : Value}
    (hv : Value.Related R v v') (hg : globals.MatchedBy excused R globals')
    {last last' : Option Value} (hlast : Option.Rel (Value.Related R) last last') :
    (f.leave v globals last).1.MatchedBy excused R (f'.leave v' globals' last').1 ∧
      Option.Rel (Value.Related R) (f.leave v globals last).2 (f'.leave v' globals' last').2 := by
  cases hf with
  | define name _ => exact ⟨hg.insert name hv, hlast⟩
  | expr _ => exact ⟨hg, .some hv⟩

/-- One run is matched by another: the outcomes match, and the globals do where the outcome of the
first is decided and no excused error. -/
inductive RunMatchedBy (excused : EvalError → Prop) (R : Expr → Expr → Prop) :
    Env × Outcome (Option Value) → Env × Outcome (Option Value) → Prop
  | done {globals globals' : Env} {last last' : Option Value}
      (hg : globals.MatchedBy excused R globals')
      (hlast : Option.Rel (Value.Related R) last last') :
      RunMatchedBy excused R (globals, .done last) (globals', .done last')
  | failed {globals globals' : Env} (hg : globals.MatchedBy excused R globals') (err : EvalError) :
      RunMatchedBy excused R (globals, .failed err) (globals', .failed err)
  | excused {err : EvalError} (h : excused err) (globals : Env)
      (result : Env × Outcome (Option Value)) :
      RunMatchedBy excused R (globals, .failed err) result
  | outOfFuel (globals : Env) (result : Env × Outcome (Option Value)) :
      RunMatchedBy excused R (globals, .outOfFuel) result

/-- **Runs respect a simulation.** -/
theorem Simulation.runForms (hsim : Simulation excused rule rule' R) {n m : Nat} (hnm : n ≤ m)
    {fs fs' : List Form} (hfs : List.Forall₂ (Form.Related R) fs fs') {globals globals' : Env}
    (hg : globals.MatchedBy excused R globals') {last last' : Option Value}
    (hlast : Option.Rel (Value.Related R) last last') :
    RunMatchedBy excused R (L32.runForms rule n globals last fs)
      (L32.runForms rule' m globals' last' fs') := by
  induction hfs generalizing globals globals' last last' with
  | nil => exact .done hg hlast
  | cons hf _ ih =>
      have hvalue := hsim.eval hg hnm .nil hf.expression
      rw [runForms_cons, runForms_cons]
      generalize L32.eval rule globals n [] _ = o at hvalue ⊢
      generalize L32.eval rule' globals' m [] _ = o' at hvalue ⊢
      cases hvalue with
      | done hv =>
          obtain ⟨hg', hlast'⟩ := hf.leave hv hg hlast
          exact ih hg' hlast'
      | failed err => exact .failed hg err
      | excused h _ => exact .excused h _ _
      | outOfFuel _ => exact .outOfFuel _ _

end Eval

end L32
