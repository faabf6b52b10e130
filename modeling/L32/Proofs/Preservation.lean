import L32.Proofs.Lookup

set_option autoImplicit false

/-! # A desugared program does what the program did

Where a program can be run without meeting a dictionary literal, its desugaring runs to the same
end. The two runs differ in the code of the closures they make and in one global, the definition of
the lookup procedure in front. Both differences are within a simulation: `Expr.Desugars` relates
the code, and the name of the lookup procedure is bound in the second run only, which can matter
only where the first run fails on it. So the program may define or bind that name itself.

`Value.desugar` is what becomes of a value: the bodies of its closures are desugared, also those in
captured environments. Data has no bodies and stays as it is. The main statement is
`desugared_program_ends_alike`. -/

namespace L32

/-! ## Values with desugared bodies -/

mutual

/-- The value with the bodies of its closures desugared. -/
def Value.desugar (policy : ValuePolicy) : Value → Except DesugarError Value
  | .data d => .ok (.data d)
  | .prim name => .ok (.prim name)
  | .closure params body env => do
    let es ← Expr.desugarAll policy body
    let env' ← Env.desugar policy env
    .ok (.closure params es env')

def Env.desugar (policy : ValuePolicy) :
    List (String × Value) → Except DesugarError (List (String × Value))
  | [] => .ok []
  | (name, v) :: env => do
    let v' ← v.desugar policy
    let env' ← Env.desugar policy env
    .ok ((name, v') :: env')

end

section Bodies

variable {policy : ValuePolicy}

mutual

theorem Value.Related.desugar_eq : ∀ {v v' : Value}, Value.Related (Expr.Desugars policy) v v' →
    v.desugar policy = .ok v'
  | _, _, .data _ => rfl
  | _, _, .prim _ => rfl
  | _, _, .closure _ hb henv => by
      simp only [Value.desugar, bind_eq_ok]
      exact ⟨_, desugarAll_eq_ok_iff.2 hb, _, Env.Related.desugar_eq henv, rfl⟩

theorem Env.Related.desugar_eq : ∀ {env env' : List (String × Value)},
    Env.Related (Expr.Desugars policy) env env' → Env.desugar policy env = .ok env'
  | _, _, .nil => rfl
  | _, _, .cons _ hv henv => by
      simp only [Env.desugar, bind_eq_ok]
      exact ⟨_, Value.Related.desugar_eq hv, _, Env.Related.desugar_eq henv, rfl⟩

end

end Bodies

/-! ## The simulation -/

/-- The errors that desugaring may take away: something that evaluation does not cover, as a
dictionary literal is, and the missing lookup procedure. -/
def EvalError.Curable (err : EvalError) : Prop :=
  (∃ text, err = .unsupported text) ∨ err = .unbound lookupName

theorem simulation_desugar (policy : ValuePolicy) :
    Simulation EvalError.Curable refuseDict refuseDict (Expr.Desugars policy) where
  parts h hdict := (desugar_eq_ok_iff_congruent hdict).1 h
  dict _ _ _ _ := .excused (Or.inl ⟨_, rfl⟩) _

/-- Only the lookup procedure is bound in the second run and not in the first. -/
theorem nil_matchedBy_lookup (R : Expr → Expr → Prop) :
    Env.MatchedBy EvalError.Curable R [] [(lookupName, lookupClosure)] := by
  intro name
  by_cases hname : lookupName = name
  · -- unbound in the first run, and the error for that is curable
    subst hname
    exact Or.inr ⟨rfl, Or.inr rfl⟩
  · left
    simp only [Env.get?, if_neg hname]
    exact .none

/-- **The run of a desugared program matches that of the program**, with one more unit of fuel for
the definition in front. -/
theorem run_desugar_matchedBy {policy : ValuePolicy} {p q : Program}
    (h : p.desugar policy = .ok q) (fuel : Nat) :
    RunMatchedBy EvalError.Curable (Expr.Desugars policy) (p.run refuseDict fuel [])
      (q.run refuseDict (fuel + 1) []) := by
  obtain ⟨q', hq', rfl⟩ := Program.desugar_eq_ok_iff.1 h
  have hforms := (Program.desugarForms_eq_ok_iff.1 hq').imp fun _ _ => Form.desugar_eq_ok_iff.1
  -- the definition in front leaves the closure of the lookup procedure among the globals
  show RunMatchedBy _ _ _ (runForms refuseDict (fuel + 1) [(lookupName, lookupClosure)] none _)
  exact (simulation_desugar policy).runForms (Nat.le_succ fuel) hforms
    (nil_matchedBy_lookup _) .none

theorem exists_run_matching {policy : ValuePolicy} {p q : Program} (h : p.desugar policy = .ok q)
    {globals : Env} {r : Except EvalError (Option Value)}
    (hrun : p.Runs refuseDict [] globals r) :
    ∃ fuel result, q.run refuseDict fuel [] = result ∧
      RunMatchedBy EvalError.Curable (Expr.Desugars policy) (globals, .ofExcept r) result := by
  obtain ⟨fuel, hfuel⟩ := hrun
  have hmatch := run_desugar_matchedBy h fuel
  rw [hfuel] at hmatch
  exact ⟨fuel + 1, _, rfl, hmatch⟩

/-! ## Programs of definitions only -/

theorem runForms_last_of_definitions {rule : DictRule} {fuel : Nat} {fs : List Form}
    (h : ∀ f ∈ fs, ∀ e, f ≠ .expr e) {globals globals' : Env} {last v : Option Value}
    (hrun : runForms rule fuel globals last fs = (globals', .done v)) : v = last := by
  induction fs generalizing globals with
  | nil =>
      cases hrun
      rfl
  | cons f fs ih =>
      cases f with
      | define name value =>
          simp only [runForms] at hrun
          split at hrun
          · exact ih (fun f hf => h f (by simp [hf])) hrun
          · cases hrun
          · cases hrun
      | expr value => exact absurd rfl (h (.expr value) (by simp) value)

theorem definitions_of_desugar {policy : ValuePolicy} {p q : Program}
    (h : p.desugar policy = .ok q) (hp : ∀ f ∈ p.forms, ∀ e, f ≠ .expr e) :
    ∀ f ∈ q.forms, ∀ e, f ≠ .expr e := by
  obtain ⟨q', hq', rfl⟩ := Program.desugar_eq_ok_iff.1 h
  intro f' hf'
  rcases List.mem_cons.1 hf' with rfl | hf'
  · intro e he
    cases he
  · obtain ⟨f, hf, hff'⟩ := exists_mem_left_of_forall₂ (Program.desugarForms_eq_ok_iff.1 hq') hf'
    cases Form.desugar_eq_ok_iff.1 hff' with
    | define name _ =>
        intro e he
        cases he
    | expr _ => exact absurd rfl (hp _ hf _)

/-! ## The main statement -/

/-- **A desugared program ends as the program did.** Both start without globals. Where the run of
the program ends in a result, that of its desugaring ends in the result with the bodies of closures
desugared; so a result that is data is the same. Where it ends in an error, the other ends in the
same error, unless something was unsupported or the lookup procedure was missing. A program of
definitions only gives no result, before and after. -/
theorem desugared_program_ends_alike {policy : ValuePolicy} {p q : Program}
    (h : p.desugar policy = .ok q) :
    (∀ globals, p.Runs refuseDict [] globals (.ok none) →
        ∃ globals', q.Runs refuseDict [] globals' (.ok none))
    ∧ (∀ globals v, p.Runs refuseDict [] globals (.ok (some v)) →
        ∃ globals' v', v.desugar policy = .ok v' ∧
          q.Runs refuseDict [] globals' (.ok (some v')))
    ∧ (∀ globals d, p.Runs refuseDict [] globals (.ok (some (.data d))) →
        ∃ globals', q.Runs refuseDict [] globals' (.ok (some (.data d))))
    ∧ (∀ globals err, p.Runs refuseDict [] globals (.error err) →
        (∀ text, err ≠ .unsupported text) → err ≠ .unbound lookupName →
        ∃ globals', q.Runs refuseDict [] globals' (.error err))
    ∧ ((∀ f ∈ p.forms, ∀ e, f ≠ .expr e) → ∀ globals v,
        (p.Runs refuseDict [] globals (.ok v) → v = none) ∧
          (q.Runs refuseDict [] globals (.ok v) → v = none)) := by
  have hvalue : ∀ globals v, p.Runs refuseDict [] globals (.ok (some v)) →
      ∃ globals' v', v.desugar policy = .ok v' ∧
        q.Runs refuseDict [] globals' (.ok (some v')) := by
    intro globals v hrun
    obtain ⟨fuel, result, hq, hmatch⟩ := exists_run_matching h hrun
    cases hmatch with
    | done _ hlast =>
        cases hlast with
        | some hv => exact ⟨_, _, hv.desugar_eq, fuel, hq⟩
  refine ⟨?_, hvalue, ?_, ?_, ?_⟩
  · intro globals hrun
    obtain ⟨fuel, result, hq, hmatch⟩ := exists_run_matching h hrun
    cases hmatch with
    | done _ hlast =>
        cases hlast with
        | none => exact ⟨_, fuel, hq⟩
  · -- data has no bodies, so desugaring it computes to itself
    intro globals d hrun
    obtain ⟨globals', v', hv', hq⟩ := hvalue globals _ hrun
    cases hv'
    exact ⟨globals', hq⟩
  · intro globals err hrun hsupported hbound
    obtain ⟨fuel, result, hq, hmatch⟩ := exists_run_matching h hrun
    cases hmatch with
    | failed _ _ => exact ⟨_, fuel, hq⟩
    | excused hcurable _ _ =>
        rcases hcurable with ⟨text, htext⟩ | hname
        · exact absurd htext (hsupported text)
        · exact absurd hname hbound
  · intro hp globals v
    constructor
    · rintro ⟨fuel, hfuel⟩
      exact runForms_last_of_definitions hp hfuel
    · rintro ⟨fuel, hfuel⟩
      exact runForms_last_of_definitions (definitions_of_desugar h hp) hfuel

/-- A program that defines `dict` itself, with parameters named as those of the lookup procedure,
and gives a procedure whose body holds a dictionary literal. -/
theorem desugared_program_ends_alike_own_dict :
    ∃ q globals', (Program.mk [
          .define "dict" (.lambda ["pairs", "k"] [.var "k"]),
          .define "f" (.lambda ["x"] [.dict [⟨.var "a", .bool true⟩]]),
          .expr (.app (.var "dict") [.bool false, .var "f"])]).desugar .literal = .ok q
      ∧ q.Runs refuseDict [] globals' (.ok (some (.closure ["x"]
          [.app (.var "dict") [.literal (.ofList [.pair (.symbol "a") (.bool true)])]] []))) := by
  have hdesugar : (Program.mk [
      .define "dict" (.lambda ["pairs", "k"] [.var "k"]),
      .define "f" (.lambda ["x"] [.dict [⟨.var "a", .bool true⟩]]),
      .expr (.app (.var "dict") [.bool false, .var "f"])]).desugar .literal = .ok _ := rfl
  obtain ⟨globals', v', hv', hrun⟩ :=
    (desugared_program_ends_alike hdesugar).2.1 _ _ ⟨3, rfl⟩
  cases hv'
  exact ⟨_, globals', rfl, hrun⟩

end L32
