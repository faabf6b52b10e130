import L32.Proofs.Preservation
import L32.Proofs.Scope

set_option autoImplicit false

/-! # Programs one after the other

Two programs may be desugared and run as one, or each on its own and in turn on the same globals.
The first way has one definition of the lookup procedure, the second has another one in the middle
of the run. It changes nothing as long as the first program leaves the name of the lookup procedure
alone: the globals hold the lookup procedure by then (`runForms_get?_lookupName`), and defining a
name as what it is has no effect (`runForms_lookupDefinition`).

The rest is about runs as such: the run of a concatenation is the run of its parts
(`runForms_append`), and the value so far is only kept for the case that no bare expression follows
(`runForms_last`). The main statement is `desugared_parts_run_as_whole`. -/

namespace L32

/-- The forms of the first program, then those of the second. -/
instance : Append Program := ⟨fun p q => ⟨p.forms ++ q.forms⟩⟩

theorem Program.forms_append (p q : Program) : (p ++ q).forms = p.forms ++ q.forms := rfl

/-! ## Desugaring a concatenation -/

section Desugar

variable {policy : ValuePolicy} {p₁ p₂ : Program}

theorem desugarForms_append (policy : ValuePolicy) (p₁ p₂ : Program) :
    (p₁ ++ p₂).desugarForms policy = (do
      let q₁ ← p₁.desugarForms policy
      let q₂ ← p₂.desugarForms policy
      .ok (q₁ ++ q₂)) := by
  unfold Program.desugarForms
  rw [Program.forms_append, (Form.desugarAll_inOrder policy).append]
  cases Form.desugarAll policy p₁.forms with
  | error err => rfl
  | ok fs₁ => cases Form.desugarAll policy p₂.forms <;> rfl

/-- The definition in front decides nothing about failure. -/
theorem desugar_eq_error_iff {p : Program} {err : DesugarError} :
    p.desugar policy = .error err ↔ p.desugarForms policy = .error err := by
  unfold Program.desugar
  cases p.desugarForms policy with
  | error err' => exact Iff.rfl
  | ok q =>
      constructor
      · intro h
        cases h
      · intro h
        cases h

theorem desugar_append_eq_ok_iff {q : Program} :
    (p₁ ++ p₂).desugar policy = .ok q ↔
      ∃ q₁ q₂, p₁.desugarForms policy = .ok q₁ ∧ p₂.desugarForms policy = .ok q₂
        ∧ ⟨lookupDefinition :: (q₁.forms ++ q₂.forms)⟩ = q := by
  rw [Program.desugar_eq_ok_iff, desugarForms_append]
  simp only [bind_eq_ok]
  constructor
  · rintro ⟨q', ⟨q₁, hq₁, q₂, hq₂, hq'⟩, rfl⟩
    cases hq'
    exact ⟨q₁, q₂, hq₁, hq₂, rfl⟩
  · rintro ⟨q₁, q₂, hq₁, hq₂, rfl⟩
    exact ⟨_, ⟨q₁, hq₁, q₂, hq₂, rfl⟩, rfl⟩

theorem desugar_append_of_error_left {err : DesugarError} (h : p₁.desugar policy = .error err) :
    (p₁ ++ p₂).desugar policy = .error err := by
  rw [desugar_eq_error_iff] at h ⊢
  rw [desugarForms_append, h]
  rfl

theorem desugar_append_of_error_right {q₁ : Program} {err : DesugarError}
    (h₁ : p₁.desugar policy = .ok q₁) (h₂ : p₂.desugar policy = .error err) :
    (p₁ ++ p₂).desugar policy = .error err := by
  obtain ⟨q₁', hq₁, _⟩ := Program.desugar_eq_ok_iff.1 h₁
  rw [desugar_eq_error_iff] at h₂ ⊢
  rw [desugarForms_append, hq₁, h₂]
  rfl

/-- A bare expression stays one. -/
theorem expr_mem_of_desugar {p q : Program} (h : p.desugar policy = .ok q) {e : Expr}
    (he : Form.expr e ∈ p.forms) : ∃ e', Form.expr e' ∈ q.forms := by
  obtain ⟨q', hq', rfl⟩ := Program.desugar_eq_ok_iff.1 h
  obtain ⟨f', hf', hff'⟩ :=
    exists_mem_left_of_forall₂ (Program.desugarForms_eq_ok_iff.1 hq').flip he
  cases Form.desugar_eq_ok_iff.1 hff' with
  | expr _ => exact ⟨_, List.mem_cons_of_mem _ hf'⟩

end Desugar

/-! ## Running a concatenation -/

section Run

variable {rule : DictRule} {fuel : Nat}

/-- **The run of a concatenation**: the second part starts with what the first part leaves, and does
not start when the first part fails. -/
theorem runForms_append (fs gs : List Form) (globals : Env) (last : Option Value) :
    runForms rule fuel globals last (fs ++ gs) =
      match runForms rule fuel globals last fs with
      | (globals', .done last') => runForms rule fuel globals' last' gs
      | (globals', .failed err) => (globals', .failed err)
      | (globals', .outOfFuel) => (globals', .outOfFuel) := by
  induction fs generalizing globals last with
  | nil => rfl
  | cons f fs ih =>
      rw [List.cons_append, runForms_cons, runForms_cons]
      cases eval rule globals fuel [] f.expression with
      | done v => exact ih _ _
      | failed err => rfl
      | outOfFuel => rfl

/-- The outcome with a value to fall back on when there is no bare expression. -/
def Outcome.orLast (last : Option Value) : Outcome (Option Value) → Outcome (Option Value)
  | .done v => .done (v.or last)
  | .failed err => .failed err
  | .outOfFuel => .outOfFuel

/-- The value so far matters only where no bare expression follows. -/
theorem runForms_last (fs : List Form) (globals : Env) (last : Option Value) :
    runForms rule fuel globals last fs =
      ((runForms rule fuel globals none fs).1,
        (runForms rule fuel globals none fs).2.orLast last) := by
  induction fs generalizing globals last with
  | nil => rfl
  | cons f fs ih =>
      rw [runForms_cons, runForms_cons]
      cases eval rule globals fuel [] f.expression with
      | failed err => rfl
      | outOfFuel => rfl
      | done v =>
          cases f with
          | define name value => exact ih _ _
          | expr value =>
              -- from here on there is a value, and neither `last` nor `none` is seen again
              show runForms rule fuel globals (some v) fs
                = ((runForms rule fuel globals (some v) fs).1,
                  (runForms rule fuel globals (some v) fs).2.orLast last)
              rw [ih globals (some v)]
              cases (runForms rule fuel globals none fs).2 with
              | done w => cases w <;> rfl
              | failed err => rfl
              | outOfFuel => rfl

/-- Where the globals hold the lookup procedure already, its definition changes nothing. -/
theorem runForms_lookupDefinition {globals : Env}
    (hg : globals.get? lookupName = some lookupClosure) (last : Option Value) (fs : List Form) :
    runForms rule (fuel + 1) globals last (lookupDefinition :: fs)
      = runForms rule (fuel + 1) globals last fs := by
  show runForms rule (fuel + 1) (globals.insert lookupName lookupClosure) last fs = _
  rw [Env.insert_eq_self globals hg]

/-- A run with a bare expression in it has a value. -/
theorem runForms_ne_none {fs : List Form} {globals globals' : Env} {last v : Option Value}
    (hrun : runForms rule fuel globals last fs = (globals', .done v))
    (h : last ≠ none ∨ ∃ e, Form.expr e ∈ fs) : v ≠ none := by
  induction fs generalizing globals last with
  | nil =>
      cases hrun
      rcases h with hlast | ⟨e, he⟩
      · exact hlast
      · cases he
  | cons f fs ih =>
      rw [runForms_cons] at hrun
      cases hv : eval rule globals fuel [] f.expression with
      | failed err => rw [hv] at hrun; cases hrun
      | outOfFuel => rw [hv] at hrun; cases hrun
      | done w =>
          rw [hv] at hrun
          apply ih hrun
          cases f with
          | expr value => exact Or.inl (Option.some_ne_none w)
          | define name value =>
              rcases h with hlast | ⟨e, he⟩
              · exact Or.inl hlast
              · rcases List.mem_cons.1 he with he | he
                · cases he
                · exact Or.inr ⟨e, he⟩

/-- After an error the globals are those that the forms in front of the failing one have made. -/
theorem exists_before_of_runForms_failed {fs : List Form} {globals globals' : Env}
    {last : Option Value} {err : EvalError}
    (hrun : runForms rule fuel globals last fs = (globals', .failed err)) :
    ∃ before f later v, fs = before ++ f :: later
      ∧ runForms rule fuel globals last before = (globals', .done v)
      ∧ eval rule globals' fuel [] f.expression = .failed err := by
  induction fs generalizing globals last with
  | nil => cases hrun
  | cons f fs ih =>
      rw [runForms_cons] at hrun
      cases hv : eval rule globals fuel [] f.expression with
      | outOfFuel => rw [hv] at hrun; cases hrun
      | failed err' =>
          rw [hv] at hrun
          cases hrun
          exact ⟨[], f, fs, last, rfl, rfl, hv⟩
      | done w =>
          rw [hv] at hrun
          obtain ⟨before, f', later, v, rfl, hbefore, hf'⟩ := ih hrun
          refine ⟨f :: before, f', later, v, rfl, ?_, hf'⟩
          rw [runForms_cons, hv]
          exact hbefore

end Run

/-! ## Two runs in turn -/

/-- A run, and another one after it that starts with the globals of the first unless the first was
not finished. -/
def runThen (first : Env × Outcome (Option Value)) (next : Env → Env × Outcome (Option Value)) :
    Env × Outcome (Option Value) :=
  match first with
  | (between, .done v) => ((next between).1, (next between).2.orLast v)
  | (globals, .failed err) => (globals, .failed err)
  | (globals, .outOfFuel) => (globals, .outOfFuel)

theorem orLast_ofExcept (v : Option Value) (r : Except EvalError (Option Value)) :
    (Outcome.ofExcept r).orLast v = .ofExcept (r.map (·.or v)) := by
  cases r <;> rfl

theorem orLast_eq_ofExcept {v : Option Value} {o : Outcome (Option Value)}
    {r : Except EvalError (Option Value)} (h : o.orLast v = .ofExcept r) :
    ∃ r', o = .ofExcept r' ∧ r = r'.map (·.or v) := by
  cases o with
  | done w => exact ⟨.ok w, rfl, (Outcome.ofExcept_injective (r := .ok (w.or v)) h).symm⟩
  | failed err => exact ⟨.error err, rfl, (Outcome.ofExcept_injective (r := .error err) h).symm⟩
  | outOfFuel => exact absurd h.symm (Outcome.ofExcept_ne_outOfFuel r)

/-- How two programs end that run in turn on the same globals. An error of the first is the end;
otherwise the second decides, and the value of the first is kept for the case that the second has
none. -/
inductive RunsInTurn (rule : DictRule) (globals : Env) (p₁ p₂ : Program) :
    Env → Except EvalError (Option Value) → Prop
  | stops {globals' : Env} {err : EvalError} (h : p₁.Runs rule globals globals' (.error err)) :
      RunsInTurn rule globals p₁ p₂ globals' (.error err)
  | goesOn {between globals' : Env} {v : Option Value} {r : Except EvalError (Option Value)}
      (h₁ : p₁.Runs rule globals between (.ok v)) (h₂ : p₂.Runs rule between globals' r) :
      RunsInTurn rule globals p₁ p₂ globals' (r.map (·.or v))

/-- Two runs in turn, with one fuel for both. -/
theorem runsInTurn_iff {rule : DictRule} {globals globals' : Env} {p₁ p₂ : Program}
    {r : Except EvalError (Option Value)} :
    RunsInTurn rule globals p₁ p₂ globals' r ↔
      ∃ fuel, runThen (p₁.run rule fuel globals) (fun between => p₂.run rule fuel between)
        = (globals', .ofExcept r) := by
  constructor
  · intro h
    cases h with
    | stops h =>
        obtain ⟨fuel, hfuel⟩ := h
        refine ⟨fuel, ?_⟩
        rw [hfuel]
        rfl
    | @goesOn between _ v r h₁ h₂ =>
        obtain ⟨n, hn⟩ := h₁
        obtain ⟨m, hm⟩ := h₂
        -- with the larger fuel both end as they did
        have hn' : p₁.run rule (max n m) globals = (between, .done v) := by
          rw [← Outcome.ofExcept, ← hn]
          apply runForms_of_le (Nat.le_max_left n m)
          show (p₁.run rule n globals).2 ≠ _
          rw [hn]
          exact Outcome.ofExcept_ne_outOfFuel (.ok v)
        have hm' : p₂.run rule (max n m) between = (globals', .ofExcept r) := by
          rw [← hm]
          apply runForms_of_le (Nat.le_max_right n m)
          show (p₂.run rule m between).2 ≠ _
          rw [hm]
          exact Outcome.ofExcept_ne_outOfFuel r
        refine ⟨max n m, ?_⟩
        rw [hn']
        show ((p₂.run rule (max n m) between).1, (p₂.run rule (max n m) between).2.orLast v) = _
        rw [hm', orLast_ofExcept]
  · rintro ⟨fuel, hfuel⟩
    cases hfirst : p₁.run rule fuel globals with
    | mk between outcome =>
        rw [hfirst] at hfuel
        cases outcome with
        | outOfFuel => exact absurd (Prod.mk.inj hfuel).2.symm (Outcome.ofExcept_ne_outOfFuel r)
        | failed err =>
            obtain ⟨rfl, hr⟩ := Prod.mk.inj hfuel
            have herr : r = .error err := (Outcome.ofExcept_injective (r := .error err) hr).symm
            rw [herr]
            exact .stops ⟨fuel, hfirst⟩
        | done v =>
            obtain ⟨hg, hr⟩ := Prod.mk.inj hfuel
            obtain ⟨r', hr', rfl⟩ := orLast_eq_ofExcept hr
            exact .goesOn ⟨fuel, hfirst⟩ ⟨fuel, Prod.ext hg hr'⟩

/-! ## The whole and its parts -/

section Whole

variable {policy : ValuePolicy} {p₁ p₂ q₁ q₂ : Program} {rule : DictRule}

/-- **The run of the whole, from the runs of the parts**, with the same fuel for all three. The
second part starts with the globals of the first, where its own definition of the lookup procedure
has no effect. -/
theorem runForms_whole (hp₁ : ∀ value, Form.define lookupName value ∉ p₁.forms)
    (h₁ : p₁.desugarForms policy = .ok q₁) (gs : List Form) (globals : Env) (fuel : Nat) :
    runForms rule fuel globals none (lookupDefinition :: (q₁.forms ++ gs)) =
      runThen (runForms rule fuel globals none (lookupDefinition :: q₁.forms))
        (fun between => runForms rule fuel between none (lookupDefinition :: gs)) := by
  cases fuel with
  | zero => rfl
  | succ fuel =>
      have hkept : ∀ value, Form.define lookupName value ∈ q₁.forms → value = lookupProcedure := by
        have hkeeps : p₁.KeepsLookup := fun value hmem => absurd hmem (hp₁ value)
        exact hkeeps.desugarForms h₁
      -- the definition in front leaves the lookup procedure among the globals
      have hfront : ∀ fs, runForms rule (fuel + 1) globals none (lookupDefinition :: fs)
          = runForms rule (fuel + 1) (globals.insert lookupName lookupClosure) none fs :=
        fun fs => rfl
      have hbetween : (runForms rule (fuel + 1) (globals.insert lookupName lookupClosure) none
          q₁.forms).1.get? lookupName = some lookupClosure :=
        runForms_get?_lookupName (Env.get?_insert_self _ _ _) hkept
      rw [hfront, hfront, runForms_append]
      cases hfirst : runForms rule (fuel + 1) (globals.insert lookupName lookupClosure) none
          q₁.forms with
      | mk between outcome =>
          rw [hfirst] at hbetween
          cases outcome with
          | failed err => rfl
          | outOfFuel => rfl
          | done v =>
              unfold runThen
              simp only
              rw [runForms_lookupDefinition hbetween none gs]
              exact runForms_last gs between v

/-- The run of the whole ends exactly as the runs in turn do. -/
theorem runs_whole_iff {q : Program} (hp₁ : ∀ value, Form.define lookupName value ∉ p₁.forms)
    (hq : (p₁ ++ p₂).desugar policy = .ok q) (hq₁ : p₁.desugar policy = .ok q₁)
    (hq₂ : p₂.desugar policy = .ok q₂) {globals globals' : Env}
    {r : Except EvalError (Option Value)} :
    q.Runs rule globals globals' r ↔ RunsInTurn rule globals q₁ q₂ globals' r := by
  obtain ⟨s₁, hs₁, rfl⟩ := Program.desugar_eq_ok_iff.1 hq₁
  obtain ⟨s₂, hs₂, rfl⟩ := Program.desugar_eq_ok_iff.1 hq₂
  obtain ⟨t₁, t₂, ht₁, ht₂, rfl⟩ := desugar_append_eq_ok_iff.1 hq
  cases hs₁.symm.trans ht₁
  cases hs₂.symm.trans ht₂
  rw [runsInTurn_iff]
  apply exists_congr
  intro fuel
  show runForms rule fuel globals none (lookupDefinition :: (s₁.forms ++ s₂.forms)) = _ ↔ _
  rw [runForms_whole hp₁ hs₁ s₂.forms globals fuel]
  exact Iff.rfl

end Whole

/-! ## The main statement -/

/-- **Desugaring and running in parts agrees with desugaring and running the whole.** The whole can
be desugared exactly when both parts can, and otherwise the first error is reported. When the first
part does not define the name of the lookup procedure, the desugared whole runs from any globals as
the desugared parts do in turn: to the same error, the same globals and the same value. The value is
that of the second part if it has a bare expression, and else that of the first. After an error the
globals are those that the forms in front of the failing one have made. -/
theorem desugared_parts_run_as_whole (policy : ValuePolicy) (p₁ p₂ : Program) :
    ((∃ q, (p₁ ++ p₂).desugar policy = .ok q) ↔
        (∃ q₁, p₁.desugar policy = .ok q₁) ∧ ∃ q₂, p₂.desugar policy = .ok q₂)
    ∧ (∀ err, p₁.desugar policy = .error err → (p₁ ++ p₂).desugar policy = .error err)
    ∧ (∀ q₁ err, p₁.desugar policy = .ok q₁ → p₂.desugar policy = .error err →
        (p₁ ++ p₂).desugar policy = .error err)
    ∧ (∀ q q₁ q₂, (p₁ ++ p₂).desugar policy = .ok q → p₁.desugar policy = .ok q₁ →
        p₂.desugar policy = .ok q₂ → (∀ value, Form.define lookupName value ∉ p₁.forms) →
        ∀ rule globals,
          (∀ globals' r,
            q.Runs rule globals globals' r ↔ RunsInTurn rule globals q₁ q₂ globals' r)
          ∧ (∀ globals' w, q₂.Runs rule globals globals' (.ok w) →
              (w = none ↔ ∀ e, Form.expr e ∉ p₂.forms))
          ∧ (∀ globals' err, q.Runs rule globals globals' (.error err) →
              ∃ before f later v, q.forms = before ++ f :: later
                ∧ (Program.mk before).Runs rule globals globals' (.ok v)
                ∧ Evaluates rule globals' [] f.expression (.error err))) := by
  refine ⟨?_, fun err => desugar_append_of_error_left,
    fun q₁ err => desugar_append_of_error_right, ?_⟩
  · constructor
    · rintro ⟨q, hq⟩
      obtain ⟨q₁, q₂, hq₁, hq₂, _⟩ := desugar_append_eq_ok_iff.1 hq
      exact ⟨⟨_, Program.desugar_eq_ok_iff.2 ⟨q₁, hq₁, rfl⟩⟩,
        _, Program.desugar_eq_ok_iff.2 ⟨q₂, hq₂, rfl⟩⟩
    · rintro ⟨⟨_, hq₁⟩, _, hq₂⟩
      obtain ⟨q₁, hq₁, _⟩ := Program.desugar_eq_ok_iff.1 hq₁
      obtain ⟨q₂, hq₂, _⟩ := Program.desugar_eq_ok_iff.1 hq₂
      exact ⟨_, desugar_append_eq_ok_iff.2 ⟨q₁, q₂, hq₁, hq₂, rfl⟩⟩
  · intro q q₁ q₂ hq hq₁ hq₂ hp₁ rule globals
    refine ⟨fun globals' r => runs_whole_iff hp₁ hq hq₁ hq₂, ?_, ?_⟩
    · rintro globals' w ⟨fuel, hfuel⟩
      constructor
      · rintro rfl e he
        obtain ⟨e', he'⟩ := expr_mem_of_desugar hq₂ he
        exact runForms_ne_none hfuel (Or.inr ⟨e', he'⟩) rfl
      · intro hnone
        have hdefinitions : ∀ f ∈ p₂.forms, ∀ e, f ≠ .expr e := by
          rintro f hf e rfl
          exact hnone e hf
        exact runForms_last_of_definitions (definitions_of_desugar hq₂ hdefinitions) hfuel
    · rintro globals' err ⟨fuel, hfuel⟩
      obtain ⟨before, f, later, v, hforms, hbefore, hf⟩ :=
        exists_before_of_runForms_failed hfuel
      exact ⟨before, f, later, v, hforms, ⟨fuel, hbefore⟩, fuel, hf⟩

/-- A dictionary defined by the first part and looked up in by the second, which then defines the
name of the lookup procedure itself. -/
theorem desugared_parts_run_as_whole_lookup :
    ∃ q globals, (Program.mk [.define "d" (.dict [⟨.var "a", .bool true⟩])]
          ++ Program.mk [.expr (.app (.var "d") [.literal (.symbol "a")]),
            .define "dict" (.bool false)]).desugar .literal = .ok q
      ∧ q.Runs refuseDict [] globals (.ok (some (.data (.bool true)))) := by
  set p₁ := Program.mk [.define "d" (.dict [⟨.var "a", .bool true⟩])]
  set p₂ := Program.mk [.expr (.app (.var "d") [.literal (.symbol "a")]),
    .define "dict" (.bool false)]
  have hq : (p₁ ++ p₂).desugar .literal = .ok _ := rfl
  have hq₁ : p₁.desugar .literal = .ok _ := rfl
  have hq₂ : p₂.desugar .literal = .ok _ := rfl
  have hp₁ : ∀ value, Form.define lookupName value ∉ p₁.forms := by
    intro value hmem
    simp [p₁, lookupName] at hmem
  have hturn := (desugared_parts_run_as_whole .literal p₁ p₂).2.2.2 _ _ _ hq hq₁ hq₂ hp₁
    refuseDict []
  exact ⟨_, _, hq, (hturn.1 _ _).2 (RunsInTurn.goesOn (v := none)
    (r := .ok (some (.data (.bool true)))) ⟨2, rfl⟩ ⟨8, rfl⟩)⟩

end L32
