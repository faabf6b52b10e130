import L32.Proofs.Acceptance

set_option autoImplicit false

/-! # The literal policy within the structural one

The two policies make data of a dictionary value by different functions, `Expr.encode` and
`Expr.quote`. The first takes constants only, and on a constant that is the whole value the second
agrees with it (`quote_of_encode`): quoted data inside code is another matter, but a dictionary
value is always taken from its root.

So whatever the literal policy accepts, the structural policy accepts with the same result. For
expressions this is an induction over the successful desugaring (`desugar_structural_of_literal`);
for forms and programs it goes member by member. -/

namespace L32

/-! ## One value and one dictionary -/

/-- A constant is quoted as the datum it denotes. -/
theorem Expr.quote_of_encode {e : Expr} {d : Datum} (h : e.encode = .ok d) : e.quote = .ok d := by
  cases e with
  | number _ | bool _ | str _ | literal _ => exact h
  | var _ | prim _ | cond _ _ _ | lambda _ _ | app _ _ | letIn _ _ | dict _ => cases h

theorem Entry.toDatum_structural_of_literal {x : Entry Expr} {d : Datum}
    (h : x.toDatum .literal = .ok d) : x.toDatum .structural = .ok d := by
  simp only [Entry.toDatum, bind_eq_ok] at h ⊢
  obtain ⟨name, hname, value, hvalue, hpair⟩ := h
  exact ⟨name, hname, value, Expr.quote_of_encode hvalue, hpair⟩

theorem lookupCall_structural_of_literal {entries : List (Entry Expr)} {e : Expr}
    (h : lookupCall .literal entries = .ok e) : lookupCall .structural entries = .ok e := by
  obtain ⟨ds, hds, rfl⟩ := lookupCall_eq_ok_iff.1 h
  refine lookupCall_eq_ok_iff.2 ⟨ds, ?_, rfl⟩
  have hliteral := (toData_inOrder .literal).eq_ok_iff.1 hds
  exact (toData_inOrder .structural).eq_ok_iff.2
    (hliteral.imp fun _ _ hd => Entry.toDatum_structural_of_literal hd)

/-! ## Expressions, forms and programs -/

theorem Expr.Congruent.isDict_eq_false {R : Expr → Expr → Prop} {e e' : Expr}
    (h : e.Congruent R e') : e.isDict = false := by
  cases h with
  | leaf h => cases e <;> simp_all [Expr.isLeaf, Expr.isDict]
  | cond _ _ _ | lambda _ _ | app _ _ | letIn _ _ => rfl

/-- **What the literal policy accepts, the structural policy accepts with the same result.** -/
theorem desugar_structural_of_literal {e e' : Expr} (h : e.desugar .literal = .ok e') :
    e.desugar .structural = .ok e' := by
  refine desugar_induction (motive := Expr.Desugars .structural) ?_ ?_ h
  · intro e e' hcongr
    exact (desugar_eq_ok_iff_congruent hcongr.isDict_eq_false).2 hcongr
  · -- the entries are the same under both policies by now; only their values are encoded anew
    intro entries entries' e' hentries hcall
    exact desugar_dict_eq_ok_iff.2 ⟨entries', hentries, lookupCall_structural_of_literal hcall⟩

theorem Form.desugar_structural_of_literal {f f' : Form} (h : f.desugar .literal = .ok f') :
    f.desugar .structural = .ok f' := by
  rw [Form.desugar_eq_ok_iff] at h ⊢
  cases h with
  | define name he => exact .define name (L32.desugar_structural_of_literal he)
  | expr he => exact .expr (L32.desugar_structural_of_literal he)

namespace Program

theorem desugarForms_structural_of_literal {p q : Program} (h : p.desugarForms .literal = .ok q) :
    p.desugarForms .structural = .ok q := by
  rw [desugarForms_eq_ok_iff] at h ⊢
  exact h.imp fun _ _ hf => Form.desugar_structural_of_literal hf

theorem desugar_structural_of_literal {p q : Program} (h : p.desugar .literal = .ok q) :
    p.desugar .structural = .ok q := by
  rw [desugar_eq_ok_iff] at h ⊢
  obtain ⟨q', hq', rfl⟩ := h
  exact ⟨q', desugarForms_structural_of_literal hq', rfl⟩

end Program

/-! ## The main statement -/

/-- Where the more generous of two computations fails, the other fails too. -/
theorem exists_error_of_restricts {ε α : Type} {strict generous : Except ε α}
    (h : ∀ a, strict = .ok a → generous = .ok a) {err : ε} (herr : generous = .error err) :
    ∃ err', strict = .error err' := by
  cases hs : strict with
  | error err' => exact ⟨err', rfl⟩
  | ok a =>
      rw [h a hs] at herr
      cases herr

/-- **The literal policy is a restriction of the structural one.** For expressions, for the forms of
a program, and for whole programs with the definition in front: a result under the literal policy is
the result under the structural policy too, and where the structural policy fails, so does the
literal one. -/
theorem literal_policy_restricts_structural :
    (∀ e : Expr,
        (∀ e', e.desugar .literal = .ok e' → e.desugar .structural = .ok e')
        ∧ ∀ err, e.desugar .structural = .error err → ∃ err', e.desugar .literal = .error err')
    ∧ (∀ p : Program,
        (∀ q, p.desugarForms .literal = .ok q → p.desugarForms .structural = .ok q)
        ∧ ∀ err, p.desugarForms .structural = .error err →
            ∃ err', p.desugarForms .literal = .error err')
    ∧ (∀ p : Program,
        (∀ q, p.desugar .literal = .ok q → p.desugar .structural = .ok q)
        ∧ ∀ err, p.desugar .structural = .error err →
            ∃ err', p.desugar .literal = .error err') := by
  refine ⟨fun e => ?_, fun p => ?_, fun p => ?_⟩
  · have hok := fun e' => @desugar_structural_of_literal e e'
    exact ⟨hok, fun _ => exists_error_of_restricts hok⟩
  · have hok := fun q => @Program.desugarForms_structural_of_literal p q
    exact ⟨hok, fun _ => exists_error_of_restricts hok⟩
  · have hok := fun q => @Program.desugar_structural_of_literal p q
    exact ⟨hok, fun _ => exists_error_of_restricts hok⟩

/-- A dictionary whose value is quoted data, under a `let`: accepted by both policies. A key that is
a truth value: refused by both. -/
theorem literal_policy_restricts_structural_quoted :
    (∃ e', (Expr.letIn [⟨"x", .dict [⟨.var "a", .literal (.ofList [.symbol "b"])⟩]⟩]
          [.var "x"]).desugar .structural = .ok e')
      ∧ ∃ err, (Expr.dict [⟨.bool true, .var "x"⟩]).desugar .literal = .error err :=
  ⟨⟨_, (literal_policy_restricts_structural.1 (.letIn [⟨"x",
      .dict [⟨.var "a", .literal (.ofList [.symbol "b"])⟩]⟩] [.var "x"])).1 _ rfl⟩,
    (literal_policy_restricts_structural.1 (.dict [⟨.bool true, .var "x"⟩])).2 _ rfl⟩

end L32
