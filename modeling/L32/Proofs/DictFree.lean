import L32.Proofs.Elimination
import L32.Proofs.Termination

set_option autoImplicit false

/-! # Evaluation that meets no dictionary literal

Code is not only evaluated where it stands in a program. Closures keep it, so do the environments
that closures have captured, and the globals keep it from one program to the next.
`Value.hasDict` and `Env.hasDict` look for dictionary literals in all of these places.

Where there are none, evaluation cannot tell one rule for dictionary literals from another. That is
a simulation of each rule by each other one: the relation `Expr.SameDictFree` is equality of
expressions without dictionary literals, and what it comes to on values is equality of values
without them (`Value.related_sameDictFree`). So one simulation says that two results are the same
and that they hold no dictionary literal (`eval_of_dictFree`). What a form leaves behind is of the
same kind (`Form.leave_hasDict`), hence what a run leaves behind (`runForms_of_dictFree`), and what
programs one after the other leave behind (`globalsAfter_of_dictFree`). Desugared programs are
without dictionary literals, so on them the main statement `evaluation_meets_no_dictionary` holds
from the start. -/

namespace L32

/-! ## Code inside values -/

mutual

/-- Whether a dictionary literal occurs in the code of a value, in the body of a procedure or in the
environment that the procedure has captured. -/
def Value.hasDict : Value → Bool
  | .data _ | .prim _ => false
  | .closure _ body env => Expr.anyHasDict body || Env.hasDict env

def Env.hasDict : Env → Bool
  | [] => false
  | (_, v) :: env => v.hasDict || Env.hasDict env

end

/-- The same expression, without a dictionary literal. -/
def Expr.SameDictFree (e e' : Expr) : Prop :=
  e = e' ∧ e.hasDict = false

mutual

theorem Value.related_sameDictFree : ∀ {v : Value}, v.hasDict = false →
    Value.Related Expr.SameDictFree v v
  | .data d, _ => .data d
  | .prim name, _ => .prim name
  | .closure params body env, h => by
      rw [Value.hasDict, Bool.or_eq_false_iff, Expr.anyHasDict_eq_false_iff] at h
      exact .closure params (List.forall₂_same.2 fun e he => ⟨rfl, h.1 e he⟩)
        (Env.related_sameDictFree h.2)

theorem Env.related_sameDictFree : ∀ {env : Env}, env.hasDict = false →
    Env.Related Expr.SameDictFree env env
  | [], _ => .nil
  | (name, v) :: env, h => by
      rw [Env.hasDict, Bool.or_eq_false_iff] at h
      exact .cons name (Value.related_sameDictFree h.1) (Env.related_sameDictFree h.2)

end

mutual

theorem Value.Related.hasDict_eq_false : ∀ {v v' : Value},
    Value.Related Expr.SameDictFree v v' → v.hasDict = false
  | _, _, .data _ => rfl
  | _, _, .prim _ => rfl
  | _, _, .closure _ hb henv => by
      rw [Value.hasDict, Env.Related.hasDict_eq_false henv, Bool.or_false,
        Expr.anyHasDict_eq_false_iff]
      intro e he
      obtain ⟨e', _, hsame⟩ := exists_mem_left_of_forall₂ hb.flip he
      exact hsame.2

theorem Env.Related.hasDict_eq_false : ∀ {env env' : Env},
    Env.Related Expr.SameDictFree env env' → env.hasDict = false
  | _, _, .nil => rfl
  | _, _, .cons _ hv henv => by
      rw [Env.hasDict, Value.Related.hasDict_eq_false hv, Env.Related.hasDict_eq_false henv]
      rfl

end

theorem Env.hasDict_insert {env : Env} {v : Value} (henv : env.hasDict = false) (name : String)
    (hv : v.hasDict = false) : (env.insert name v).hasDict = false :=
  ((Env.related_sameDictFree henv).insert name (Value.related_sameDictFree hv)).hasDict_eq_false

/-! ## Expressions -/

/-- Without dictionary literals every rule for them is simulated by every other one. -/
theorem simulation_sameDictFree (rule rule' : DictRule) :
    Simulation (fun _ => False) rule rule' Expr.SameDictFree where
  parts := by
    rintro e _ ⟨rfl, hfree⟩ hdict
    rw [Expr.hasDict_eq_parts hdict, List.any_eq_false] at hfree
    exact .refl (fun c hc => ⟨rfl, by simpa using hfree c hc⟩) hdict
  dict := by
    rintro entries _ ⟨rfl, hfree⟩
    cases hfree

/-- **Evaluation without dictionary literals** does the same under every rule for them, and no value
that it gives holds one. -/
theorem eval_of_dictFree {globals env : Env} {e : Expr} (hg : globals.hasDict = false)
    (henv : env.hasDict = false) (he : e.hasDict = false) (rule rule' : DictRule) (fuel : Nat) :
    eval rule' globals fuel env e = eval rule globals fuel env e
      ∧ ∀ v, eval rule globals fuel env e = .done v → v.hasDict = false := by
  have hglobals : globals.MatchedBy (fun _ => False) Expr.SameDictFree globals :=
    fun name => Or.inl ((Env.related_sameDictFree hg).get? name)
  have hmatch : ∀ r r', (eval r globals fuel env e).MatchedBy (fun _ => False)
      (Value.Related Expr.SameDictFree) (eval r' globals fuel env e) := fun r r' =>
    (simulation_sameDictFree r r').eval hglobals (Nat.le_refl fuel)
      (Env.related_sameDictFree henv) ⟨rfl, he⟩
  have hsame : ∀ v v', Value.Related Expr.SameDictFree v v' → v = v' :=
    fun _ _ hv => hv.eq fun _ _ h => h.1
  constructor
  · -- an outcome that was cut off is matched by anything, so the other one is tried first
    by_cases hcut : eval rule' globals fuel env e = .outOfFuel
    · by_contra hne
      rw [hcut] at hne
      exact hne (hcut.symm.trans ((hmatch rule rule').eq_of_ne hsame (Ne.symm hne)))
    · exact ((hmatch rule' rule).eq_of_ne hsame hcut).symm
  · intro v hv
    have hself := hmatch rule rule
    rw [hv] at hself
    cases hself with
    | done hrel => exact hrel.hasDict_eq_false

/-! ## Programs -/

/-- What a form leaves to the forms after it holds no dictionary literal. -/
theorem Form.leave_hasDict {v : Value} {globals : Env} {last : Option Value}
    (hv : v.hasDict = false) (hg : globals.hasDict = false)
    (hlast : ∀ w, last = some w → w.hasDict = false) (f : Form) :
    (f.leave v globals last).1.hasDict = false
      ∧ ∀ w, (f.leave v globals last).2 = some w → w.hasDict = false := by
  cases f with
  | define name value => exact ⟨Env.hasDict_insert hg name hv, hlast⟩
  | expr value =>
      refine ⟨hg, ?_⟩
      rintro w ⟨⟩
      exact hv

/-- **A run without dictionary literals** leaves globals and a value without them, however it ends,
and it is the same under every rule for them. -/
theorem runForms_of_dictFree (rule rule' : DictRule) (fuel : Nat) {fs : List Form}
    (hfs : ∀ f ∈ fs, f.hasDict = false) {globals : Env} (hg : globals.hasDict = false)
    {last : Option Value} (hlast : ∀ v, last = some v → v.hasDict = false) :
    (runForms rule fuel globals last fs).1.hasDict = false
      ∧ (∀ v, (runForms rule fuel globals last fs).2 = .done (some v) → v.hasDict = false)
      ∧ runForms rule' fuel globals last fs = runForms rule fuel globals last fs := by
  induction fs generalizing globals last with
  | nil =>
      refine ⟨hg, ?_, rfl⟩
      intro v hv
      exact hlast v (Outcome.done.inj hv)
  | cons f fs ih =>
      obtain ⟨hf, hfs⟩ := List.forall_mem_cons.1 hfs
      have hempty : Env.hasDict [] = false := rfl
      obtain ⟨heq, hvalue⟩ := eval_of_dictFree hg hempty hf rule rule' fuel
      rw [runForms_cons, runForms_cons, heq]
      cases hv : eval rule globals fuel [] f.expression with
      | done v =>
          obtain ⟨hg', hlast'⟩ := f.leave_hasDict (hvalue v hv) hg hlast
          exact ih hfs hg' hlast'
      | failed err =>
          refine ⟨hg, ?_, rfl⟩
          intro v h
          cases h
      | outOfFuel =>
          refine ⟨hg, ?_, rfl⟩
          intro v h
          cases h

theorem Program.run_of_dictFree (rule rule' : DictRule) (fuel : Nat) {p : Program}
    (hp : p.hasDict = false) {globals : Env} (hg : globals.hasDict = false) :
    (p.run rule fuel globals).1.hasDict = false
      ∧ (∀ v, (p.run rule fuel globals).2 = .done (some v) → v.hasDict = false)
      ∧ p.run rule' fuel globals = p.run rule fuel globals := by
  apply runForms_of_dictFree rule rule' fuel (p.hasDict_eq_false_iff.1 hp) hg
  intro v hv
  cases hv

/-! ## Programs one after the other -/

/-- The globals after programs that run one after the other, each on the globals that the one before
has left, also if that one ended in an error. -/
def globalsAfter (rule : DictRule) (fuel : Nat) (globals : Env) : List Program → Env
  | [] => globals
  | p :: ps => globalsAfter rule fuel (p.run rule fuel globals).1 ps

theorem globalsAfter_of_dictFree (rule rule' : DictRule) (fuel : Nat) {ps : List Program}
    (hps : ∀ p ∈ ps, p.hasDict = false) {globals : Env} (hg : globals.hasDict = false) :
    (globalsAfter rule fuel globals ps).hasDict = false
      ∧ globalsAfter rule' fuel globals ps = globalsAfter rule fuel globals ps := by
  induction ps generalizing globals with
  | nil => exact ⟨hg, rfl⟩
  | cons p ps ih =>
      obtain ⟨hp, hps⟩ := List.forall_mem_cons.1 hps
      obtain ⟨hleft, _, hsame⟩ := Program.run_of_dictFree rule rule' fuel hp hg
      rw [globalsAfter, globalsAfter, hsame]
      exact ih hps hleft

/-- The run of a program fails at a dictionary literal: whatever error the rule for dictionary
literals gives, the run ends in that error. -/
def Program.FailsAtDict (p : Program) (fuel : Nat) (globals : Env) : Prop :=
  ∀ err, (p.run (fun _ => .failed err) fuel globals).2 = .failed err

example : (Program.mk [.define "d" (.dict []), .expr (.bool true)]).FailsAtDict 1 [] :=
  fun _ => rfl

/-- A run that no rule for dictionary literals changes does not fail at one. -/
theorem Program.not_failsAtDict {p : Program} {fuel : Nat} {globals : Env}
    (h : ∀ rule, p.run rule fuel globals = p.run refuseDict fuel globals) :
    ¬ p.FailsAtDict fuel globals := by
  intro hfails
  have hone := hfails .notCallable
  rw [h, ← h fun _ => .failed (.unbound ""), hfails (.unbound "")] at hone
  cases hone

/-! ## The main statement -/

/-- **Evaluation meets no dictionary literal where none is put in.** If neither a program nor the
globals hold one, then after the run, however it ends, neither do the globals nor the value, and
the run is the same under every rule for dictionary literals. So it is for programs that run one
after the other from no globals, each of them desugared under a policy of its own: every one of
them starts with globals that hold no dictionary literal, runs as it would under any other rule,
and does not fail at a dictionary literal. -/
theorem evaluation_meets_no_dictionary :
    (∀ (p : Program) (globals : Env), p.hasDict = false → globals.hasDict = false →
      ∀ (rule : DictRule) (fuel : Nat),
        (p.run rule fuel globals).1.hasDict = false
        ∧ (∀ v, (p.run rule fuel globals).2 = .done (some v) → v.hasDict = false)
        ∧ ∀ rule', p.run rule' fuel globals = p.run rule fuel globals)
    ∧ (∀ ps qs : List Program,
      List.Forall₂ (fun p q => ∃ policy, p.desugar policy = .ok q) ps qs →
      ∀ (fuel : Nat) (before : List Program) (q : Program) (later : List Program),
        qs = before ++ q :: later →
        (globalsAfter refuseDict fuel [] before).hasDict = false
        ∧ (∀ rule, globalsAfter rule fuel [] before = globalsAfter refuseDict fuel [] before
          ∧ q.run rule fuel (globalsAfter refuseDict fuel [] before)
            = q.run refuseDict fuel (globalsAfter refuseDict fuel [] before))
        ∧ ¬ q.FailsAtDict fuel (globalsAfter refuseDict fuel [] before)) := by
  constructor
  · intro p globals hp hg rule fuel
    obtain ⟨hleft, hvalue, _⟩ := Program.run_of_dictFree rule rule fuel hp hg
    refine ⟨hleft, hvalue, ?_⟩
    intro rule'
    exact (Program.run_of_dictFree rule rule' fuel hp hg).2.2
  · rintro ps _ hdesugar fuel before q later rfl
    have hfree : ∀ q' ∈ before ++ q :: later, q'.hasDict = false := by
      intro q' hq'
      obtain ⟨p, _, policy, hp⟩ := exists_mem_left_of_forall₂ hdesugar hq'
      exact Program.hasDict_of_desugar hp
    obtain ⟨hbefore, hrest⟩ := List.forall_mem_append.1 hfree
    have hstart : ∀ rule, (globalsAfter refuseDict fuel [] before).hasDict = false
        ∧ globalsAfter rule fuel [] before = globalsAfter refuseDict fuel [] before :=
      fun rule => globalsAfter_of_dictFree refuseDict rule fuel hbefore rfl
    have hrun : ∀ rule, q.run rule fuel (globalsAfter refuseDict fuel [] before)
        = q.run refuseDict fuel (globalsAfter refuseDict fuel [] before) := fun rule =>
      (Program.run_of_dictFree refuseDict rule fuel (hrest q (by simp)) (hstart rule).1).2.2
    exact ⟨(hstart refuseDict).1, fun rule => ⟨(hstart rule).2, hrun rule⟩,
      Program.not_failsAtDict hrun⟩

/-- A procedure with a dictionary literal in its body, and after it a program that fails because the
procedure is no data: an error of the same kind as that for dictionary literals, and not raised at
one. The procedure itself, once it is among the globals, holds no dictionary literal. -/
theorem evaluation_meets_no_dictionary_kept_procedure :
    ∃ q₁ q₂ : Program,
      (Program.mk [.define "f" (.lambda ["x"] [.dict [⟨.var "a", .var "x"⟩]])]).desugar .structural
        = .ok q₁
      ∧ (Program.mk [.expr (.app (.prim "car") [.var "f"])]).desugar .literal = .ok q₂
      ∧ (q₂.run refuseDict 3 (globalsAfter refuseDict 3 [] [q₁])).2
        = .failed (.unsupported "procedure as data")
      ∧ ¬ q₂.FailsAtDict 3 (globalsAfter refuseDict 3 [] [q₁])
      ∧ ∀ rule, (q₂.run rule 3 (globalsAfter refuseDict 3 [] [q₁])).1.hasDict = false := by
  set p₁ := Program.mk [.define "f" (.lambda ["x"] [.dict [⟨.var "a", .var "x"⟩]])]
  set p₂ := Program.mk [.expr (.app (.prim "car") [.var "f"])]
  have hq₁ : p₁.desugar .structural = .ok _ := rfl
  have hq₂ : p₂.desugar .literal = .ok _ := rfl
  obtain ⟨hrun, hinTurn⟩ := evaluation_meets_no_dictionary
  obtain ⟨hstart, _, hfails⟩ := hinTurn [p₁, p₂] _
    (.cons ⟨.structural, hq₁⟩ (.cons ⟨.literal, hq₂⟩ .nil)) 3 [_] _ [] rfl
  exact ⟨_, _, hq₁, hq₂, rfl, hfails, fun rule => (hrun _ _ rfl hstart rule 3).1⟩

end L32
