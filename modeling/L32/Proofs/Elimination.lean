import L32.Desugar
import L32.Proofs.Sequence
import L32.Proofs.Tree

set_option autoImplicit false

/-! # Desugaring removes dictionary literals and nothing else

When `Expr.desugar` succeeds is said once, construct by construct: on everything but a dictionary
literal it is a congruence (`desugar_eq_ok_iff_congruent`), and a dictionary literal becomes the
lookup call of its desugared entries (`desugar_dict_eq_ok_iff`). `desugar_induction` is the
induction over a successful desugaring that follows from the two.

The result holds no dictionary literal (`hasDict_of_desugar`), and what holds none stays as it is
(`desugar_eq_self_iff`), so a second pass under any policy changes nothing. The main statement
`desugar_removes_exactly_dicts` says so for expressions, forms and programs. -/

namespace L32

/-! ## When desugaring succeeds -/

/-- Desugaring turns the first expression into the second. -/
def Expr.Desugars (policy : ValuePolicy) (e e' : Expr) : Prop :=
  e.desugar policy = .ok e'

section Success

variable {policy : ValuePolicy}

variable (policy) in
theorem desugarAll_inOrder : InOrder (Expr.desugar policy) (Expr.desugarAll policy) :=
  ⟨rfl, fun _ _ => rfl⟩

theorem desugarAll_eq_ok_iff {es es' : List Expr} :
    Expr.desugarAll policy es = .ok es' ↔ List.Forall₂ (Expr.Desugars policy) es es' :=
  (desugarAll_inOrder policy).eq_ok_iff

theorem desugarBindings_eq_ok_iff {bs bs' : List (Binding Expr)} :
    Expr.desugarBindings policy bs = .ok bs' ↔
      List.Forall₂ (Binding.Related (Expr.Desugars policy)) bs bs' := by
  induction bs generalizing bs' with
  | nil => simp [Expr.desugarBindings, eq_comm]
  | cons b bs ih =>
      obtain ⟨name, e⟩ := b
      simp only [Expr.desugarBindings, bind_eq_ok, List.forall₂_cons_left_iff, ih]
      constructor
      · rintro ⟨e', he, bs', hbs, h⟩
        cases h
        exact ⟨⟨name, e'⟩, bs', ⟨rfl, he⟩, hbs, rfl⟩
      · rintro ⟨⟨name', e'⟩, bs', ⟨rfl, he⟩, hbs, rfl⟩
        exact ⟨e', he, bs', hbs, rfl⟩

theorem desugarEntries_eq_ok_iff {xs xs' : List (Entry Expr)} :
    Expr.desugarEntries policy xs = .ok xs' ↔
      List.Forall₂ (Entry.Related (Expr.Desugars policy)) xs xs' := by
  induction xs generalizing xs' with
  | nil => simp [Expr.desugarEntries, eq_comm]
  | cons x xs ih =>
      obtain ⟨k, e⟩ := x
      simp only [Expr.desugarEntries, bind_eq_ok, List.forall₂_cons_left_iff, ih]
      constructor
      · rintro ⟨k', hk, e', he, xs', hxs, h⟩
        cases h
        exact ⟨⟨k', e'⟩, xs', ⟨hk, he⟩, hxs, rfl⟩
      · rintro ⟨⟨k', e'⟩, xs', ⟨hk, he⟩, hxs, rfl⟩
        exact ⟨k', hk, e', he, xs', hxs, rfl⟩

theorem desugar_of_isLeaf {e : Expr} (h : e.isLeaf = true) : e.desugar policy = .ok e := by
  cases e <;> simp_all [Expr.isLeaf, Expr.desugar]

/-- **Desugaring is a congruence** on everything but dictionary literals. -/
theorem desugar_eq_ok_iff_congruent {e e' : Expr} (he : e.isDict = false) :
    e.desugar policy = .ok e' ↔ e.Congruent (Expr.Desugars policy) e' := by
  constructor
  · intro h
    cases e with
    | number _ | bool _ | str _ | var _ | prim _ | literal _ =>
        cases h
        exact .leaf rfl
    | cond test yes no =>
        simp only [Expr.desugar, bind_eq_ok] at h
        obtain ⟨t, ht, y, hy, n, hn, h⟩ := h
        cases h
        exact .cond ht hy hn
    | lambda params body =>
        simp only [Expr.desugar, bind_eq_ok, desugarAll_eq_ok_iff] at h
        obtain ⟨es, hes, h⟩ := h
        cases h
        exact .lambda params hes
    | app operator operands =>
        simp only [Expr.desugar, bind_eq_ok, desugarAll_eq_ok_iff] at h
        obtain ⟨f, hf, es, hes, h⟩ := h
        cases h
        exact .app hf hes
    | letIn bindings body =>
        simp only [Expr.desugar, bind_eq_ok, desugarAll_eq_ok_iff, desugarBindings_eq_ok_iff] at h
        obtain ⟨bs, hbs, es, hes, h⟩ := h
        cases h
        exact .letIn hbs hes
    | dict entries => simp [Expr.isDict] at he
  · intro h
    cases h with
    | leaf h => exact desugar_of_isLeaf h
    | cond ht hy hn =>
        simp only [Expr.desugar, bind_eq_ok]
        exact ⟨_, ht, _, hy, _, hn, rfl⟩
    | lambda params hb =>
        simp only [Expr.desugar, bind_eq_ok, desugarAll_eq_ok_iff]
        exact ⟨_, hb, rfl⟩
    | app hf ha =>
        simp only [Expr.desugar, bind_eq_ok, desugarAll_eq_ok_iff]
        exact ⟨_, hf, _, ha, rfl⟩
    | letIn hd hb =>
        simp only [Expr.desugar, bind_eq_ok, desugarAll_eq_ok_iff, desugarBindings_eq_ok_iff]
        exact ⟨_, hd, _, hb, rfl⟩

/-- A dictionary literal becomes the lookup call of its desugared entries. -/
theorem desugar_dict_eq_ok_iff {entries : List (Entry Expr)} {e' : Expr} :
    (Expr.dict entries).desugar policy = .ok e' ↔
      ∃ entries', List.Forall₂ (Entry.Related (Expr.Desugars policy)) entries entries' ∧
        lookupCall policy entries' = .ok e' := by
  simp only [Expr.desugar, bind_eq_ok, desugarEntries_eq_ok_iff]

/-- **Induction over a successful desugaring**: a relation holds between every expression and its
desugaring if it is kept by each construct and holds of each dictionary literal and its call. -/
@[elab_as_elim]
theorem desugar_induction {motive : Expr → Expr → Prop}
    (congr : ∀ e e', e.Congruent motive e' → motive e e')
    (dict : ∀ entries entries' e', List.Forall₂ (Entry.Related motive) entries entries' →
      lookupCall policy entries' = .ok e' → motive (.dict entries) e')
    {e e' : Expr} (h : e.desugar policy = .ok e') : motive e e' := by
  induction e using Expr.induction generalizing e' with
  | leaf e he =>
      rw [desugar_of_isLeaf he] at h
      cases h
      exact congr _ _ (.leaf he)
  | cond test yes no iht ihy ihn =>
      cases (desugar_eq_ok_iff_congruent rfl).1 h with
      | cond ht hy hn => exact congr _ _ (.cond (iht ht) (ihy hy) (ihn hn))
      | leaf hleaf => cases hleaf
  | lambda params body ih =>
      cases (desugar_eq_ok_iff_congruent rfl).1 h with
      | lambda _ hb =>
          exact congr _ _ (.lambda params (forall₂_imp_of_mem (fun e he e' h => ih e he h) hb))
      | leaf hleaf => cases hleaf
  | app operator operands ihf iha =>
      cases (desugar_eq_ok_iff_congruent rfl).1 h with
      | app hf ha =>
          exact congr _ _ (.app (ihf hf) (forall₂_imp_of_mem (fun e he e' h => iha e he h) ha))
      | leaf hleaf => cases hleaf
  | letIn bindings body ihd ihb =>
      cases (desugar_eq_ok_iff_congruent rfl).1 h with
      | letIn hd hb =>
          refine congr _ _ (.letIn (forall₂_imp_of_mem ?_ hd)
            (forall₂_imp_of_mem (fun e he e' h => ihb e he h) hb))
          exact fun b hb b' h => ⟨h.name, ihd b hb h.value⟩
      | leaf hleaf => cases hleaf
  | dict entries ih =>
      obtain ⟨entries', hrel, hcall⟩ := desugar_dict_eq_ok_iff.1 h
      refine dict _ _ _ (forall₂_imp_of_mem ?_ hrel) hcall
      exact fun x hx x' h => ⟨(ih x hx).1 h.key, (ih x hx).2 h.value⟩

end Success

/-! ## No dictionary literal is left -/

theorem Expr.Congruent.hasDict_eq_false {R : Expr → Expr → Prop} {e e' : Expr}
    (hR : ∀ a b, R a b → b.hasDict = false) (h : e.Congruent R e') : e'.hasDict = false := by
  have hall : ∀ {es es'}, List.Forall₂ R es es' → ∀ b ∈ es', b.hasDict = false := by
    intro es es' hes b hb
    obtain ⟨a, _, hab⟩ := exists_mem_left_of_forall₂ hes hb
    exact hR _ _ hab
  cases h with
  | leaf h => exact Expr.hasDict_of_isLeaf h
  | cond ht hy hn => simp [Expr.hasDict, hR _ _ ht, hR _ _ hy, hR _ _ hn]
  | lambda params hb => simpa [Expr.hasDict] using hall hb
  | app hf ha => simpa [Expr.hasDict, hR _ _ hf] using hall ha
  | letIn hd hb =>
      simp only [Expr.hasDict, Bool.or_eq_false_iff, Expr.anyBindingHasDict_eq_false_iff,
        Expr.anyHasDict_eq_false_iff]
      refine ⟨fun b hb => ?_, hall hb⟩
      obtain ⟨a, _, hab⟩ := exists_mem_left_of_forall₂ hd hb
      exact hR _ _ hab.value

theorem toData_inOrder (policy : ValuePolicy) :
    InOrder (Entry.toDatum policy) (Entry.toData policy) :=
  ⟨rfl, fun _ _ => rfl⟩

/-- A lookup call is a call of a variable on quoted data. -/
theorem lookupCall_eq_ok_iff {policy : ValuePolicy} {entries : List (Entry Expr)} {e : Expr} :
    lookupCall policy entries = .ok e ↔
      ∃ ds, Entry.toData policy entries = .ok ds ∧
        .app (.var lookupName) [.literal (.ofList ds)] = e := by
  simp only [lookupCall, bind_eq_ok, Except.ok.injEq]

/-- **The result of desugaring holds no dictionary literal.** -/
theorem hasDict_of_desugar {policy : ValuePolicy} {e e' : Expr} (h : e.desugar policy = .ok e') :
    e'.hasDict = false := by
  refine desugar_induction (motive := fun _ e' => e'.hasDict = false) ?_ ?_ h
  · intro e e' hcongr
    exact hcongr.hasDict_eq_false fun _ _ hab => hab
  · -- whatever the entries were, they are data in the call
    intro entries entries' e' _ hcall
    obtain ⟨ds, _, rfl⟩ := lookupCall_eq_ok_iff.1 hcall
    simp [Expr.hasDict]

/-! ## What holds none stays as it is -/

theorem desugar_of_hasDict_eq_false (policy : ValuePolicy) {e : Expr} (h : e.hasDict = false) :
    e.desugar policy = .ok e := by
  induction e using Expr.induction with
  | leaf e he => exact desugar_of_isLeaf he
  | cond test yes no iht ihy ihn =>
      simp only [Expr.hasDict, Bool.or_eq_false_iff] at h
      obtain ⟨⟨ht, hy⟩, hn⟩ := h
      exact (desugar_eq_ok_iff_congruent rfl).2 (.cond (iht ht) (ihy hy) (ihn hn))
  | lambda params body ih =>
      simp only [Expr.hasDict, Expr.anyHasDict_eq_false_iff] at h
      refine (desugar_eq_ok_iff_congruent rfl).2 (.lambda params ?_)
      exact List.forall₂_same.2 fun e he => ih e he (h e he)
  | app operator operands ihf iha =>
      simp only [Expr.hasDict, Bool.or_eq_false_iff, Expr.anyHasDict_eq_false_iff] at h
      refine (desugar_eq_ok_iff_congruent rfl).2 (.app (ihf h.1) ?_)
      exact List.forall₂_same.2 fun e he => iha e he (h.2 e he)
  | letIn bindings body ihd ihb =>
      simp only [Expr.hasDict, Bool.or_eq_false_iff, Expr.anyBindingHasDict_eq_false_iff,
        Expr.anyHasDict_eq_false_iff] at h
      refine (desugar_eq_ok_iff_congruent rfl).2 (.letIn ?_ ?_)
      · exact List.forall₂_same.2 fun b hb => ⟨rfl, ihd b hb (h.1 b hb)⟩
      · exact List.forall₂_same.2 fun e he => ihb e he (h.2 e he)
  | dict entries _ => simp [Expr.hasDict] at h

/-- **Desugaring leaves exactly the expressions without a dictionary literal as they are.** -/
theorem desugar_eq_self_iff (policy : ValuePolicy) (e : Expr) :
    e.desugar policy = .ok e ↔ e.hasDict = false :=
  ⟨hasDict_of_desugar, desugar_of_hasDict_eq_false policy⟩

/-! ## Forms and programs -/

theorem Form.desugar_eq_ok_iff {policy : ValuePolicy} {f f' : Form} :
    f.desugar policy = .ok f' ↔ f.Related (Expr.Desugars policy) f' := by
  constructor
  · intro h
    cases f with
    | define name value =>
        simp only [Form.desugar, bind_eq_ok] at h
        obtain ⟨e, he, h⟩ := h
        cases h
        exact .define name he
    | expr value =>
        simp only [Form.desugar, bind_eq_ok] at h
        obtain ⟨e, he, h⟩ := h
        cases h
        exact .expr he
  · intro h
    cases h with
    | define name he => exact bind_eq_ok.2 ⟨_, he, rfl⟩
    | expr he => exact bind_eq_ok.2 ⟨_, he, rfl⟩

theorem Form.hasDict_of_desugar {policy : ValuePolicy} {f f' : Form}
    (h : f.desugar policy = .ok f') : f'.hasDict = false :=
  L32.hasDict_of_desugar (Form.desugar_eq_ok_iff.1 h).expression

theorem Form.desugar_eq_self_iff (policy : ValuePolicy) (f : Form) :
    f.desugar policy = .ok f ↔ f.hasDict = false := by
  constructor
  · exact Form.hasDict_of_desugar
  · intro h
    have hself := (L32.desugar_eq_self_iff policy f.expression).2 h
    rw [Form.desugar_eq_ok_iff]
    cases f with
    | define name value => exact .define name hself
    | expr value => exact .expr hself

theorem Form.desugarAll_inOrder (policy : ValuePolicy) :
    InOrder (Form.desugar policy) (Form.desugarAll policy) :=
  ⟨rfl, fun _ _ => rfl⟩

namespace Program

theorem desugarForms_eq_ok_iff {policy : ValuePolicy} {p q : Program} :
    p.desugarForms policy = .ok q ↔
      List.Forall₂ (fun f f' => f.desugar policy = .ok f') p.forms q.forms := by
  simp only [desugarForms, bind_eq_ok, Except.ok.injEq, (Form.desugarAll_inOrder policy).eq_ok_iff]
  constructor
  · rintro ⟨fs, hfs, rfl⟩
    exact hfs
  · intro h
    exact ⟨q.forms, h, rfl⟩

theorem desugar_eq_ok_iff {policy : ValuePolicy} {p q : Program} :
    p.desugar policy = .ok q ↔
      ∃ q', p.desugarForms policy = .ok q' ∧ ⟨lookupDefinition :: q'.forms⟩ = q := by
  simp only [desugar, bind_eq_ok, Except.ok.injEq]

theorem hasDict_eq_false_iff (p : Program) :
    p.hasDict = false ↔ ∀ f ∈ p.forms, f.hasDict = false := by
  simp [hasDict]

theorem desugarForms_eq_self_iff (policy : ValuePolicy) (p : Program) :
    p.desugarForms policy = .ok p ↔ p.hasDict = false := by
  simp only [desugarForms_eq_ok_iff, hasDict_eq_false_iff, List.forall₂_same,
    Form.desugar_eq_self_iff]

theorem hasDict_of_desugarForms {policy : ValuePolicy} {p q : Program}
    (h : p.desugarForms policy = .ok q) : q.hasDict = false := by
  rw [hasDict_eq_false_iff]
  intro f' hf'
  obtain ⟨f, _, hf⟩ := exists_mem_left_of_forall₂ (desugarForms_eq_ok_iff.1 h) hf'
  exact Form.hasDict_of_desugar hf

/-- The desugared program holds no dictionary literal either: the definition in front has none. -/
theorem hasDict_of_desugar {policy : ValuePolicy} {p q : Program} (h : p.desugar policy = .ok q) :
    q.hasDict = false := by
  obtain ⟨q', hq', rfl⟩ := desugar_eq_ok_iff.1 h
  have hrest := hasDict_of_desugarForms hq'
  have hfront : lookupDefinition.hasDict = false := rfl
  rw [hasDict_eq_false_iff] at hrest ⊢
  intro f hf
  rcases List.mem_cons.1 hf with rfl | hf
  · exact hfront
  · exact hrest f hf

end Program

/-! ## The main statement -/

/-- **Desugaring removes every dictionary literal and changes nothing else.** For expressions, for
the forms of a program one by one, and for programs: the result holds no dictionary literal, only
what holds none is its own result, and desugaring the result under any policy gives it back. A
desugared program desugars to itself with one more definition of the lookup procedure in front. -/
theorem desugar_removes_exactly_dicts (policy : ValuePolicy) :
    (∀ e e' : Expr, e.desugar policy = .ok e' →
        e'.hasDict = false ∧ ∀ policy', e'.desugar policy' = .ok e')
    ∧ (∀ e : Expr, e.desugar policy = .ok e ↔ e.hasDict = false)
    ∧ (∀ p q : Program, p.desugarForms policy = .ok q →
        List.Forall₂ (fun f f' => f.desugar policy = .ok f' ∧ f'.hasDict = false ∧
            (f' = f ↔ f.hasDict = false) ∧ ∀ policy', f'.desugar policy' = .ok f')
          p.forms q.forms
        ∧ ∀ policy', q.desugarForms policy' = .ok q)
    ∧ (∀ p : Program, p.desugarForms policy = .ok p ↔ p.hasDict = false)
    ∧ (∀ p q : Program, p.desugar policy = .ok q →
        ∀ policy', q.desugar policy' = .ok ⟨lookupDefinition :: q.forms⟩) := by
  refine ⟨?_, desugar_eq_self_iff policy, ?_, Program.desugarForms_eq_self_iff policy, ?_⟩
  · intro e e' h
    have he' := hasDict_of_desugar h
    exact ⟨he', fun policy' => desugar_of_hasDict_eq_false policy' he'⟩
  · intro p q h
    refine ⟨(Program.desugarForms_eq_ok_iff.1 h).imp fun f f' hf => ?_, fun policy' => ?_⟩
    · have hf' := Form.hasDict_of_desugar hf
      refine ⟨hf, hf', ?_, fun policy' => (Form.desugar_eq_self_iff policy' f').2 hf'⟩
      -- `f` gives `f'`, so being its own result is being equal to `f'`
      rw [← Form.desugar_eq_self_iff policy f, hf, Except.ok.injEq]
    · exact (Program.desugarForms_eq_self_iff policy' q).2 (Program.hasDict_of_desugarForms h)
  · intro p q h policy'
    have hq := Program.hasDict_of_desugar h
    exact Program.desugar_eq_ok_iff.2
      ⟨q, (Program.desugarForms_eq_self_iff policy' q).2 hq, rfl⟩

/-- A dictionary in a value of a dictionary in the body of a procedure. -/
theorem desugar_removes_exactly_dicts_nested :
    ∃ q, (Program.mk [.define "d" (.lambda ["x"]
          [.dict [⟨.var "a", .dict [⟨.literal (.symbol "b"), .bool true⟩]⟩]])]).desugar .structural
        = .ok q
      ∧ q.desugar .literal = .ok ⟨lookupDefinition :: q.forms⟩ := by
  refine ⟨_, rfl, ?_⟩
  refine (desugar_removes_exactly_dicts .structural).2.2.2.2 (Program.mk [.define "d" (.lambda ["x"]
    [.dict [⟨.var "a", .dict [⟨.literal (.symbol "b"), .bool true⟩]⟩]])]) _ ?_ .literal
  rfl

end L32
