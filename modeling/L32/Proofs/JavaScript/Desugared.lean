import L32.JavaScript.Unparse
import L32.Proofs.Elimination

set_option autoImplicit false

/-! # The JavaScript text of a desugared program

Desugaring and writing JavaScript both go over an expression, and each of them may fail. Where a
program can be desugared, its JavaScript text is that of the desugared program but for the
definition in front, and where there is no text, both fail in the same way. The reason is that a
dictionary literal has no text and that what it becomes has none either: the call of the lookup
procedure holds quoted data, and the operands of a call are written first. So both fail at the same
place, although the errors show different code.

`Alike` relates two such results. It is kept by every step of `Expr.unparse`
(`Congruent.unparse_alike`), hence by desugaring (`unparse_desugar_alike`), and
`desugared_program_unparses_alike` says what follows for programs.

How the text of each construct is made of the texts of its parts is said once, by `Expr.HasText`;
what is proved about texts goes by its cases (`hasText_of_unparse`). -/

namespace L32

open JavaScript

/-! ## Results that are alike -/

/-- Two errors of the same kind. The code that they show may differ; an error about the number of
operands shows none and is the same. -/
inductive UnparseError.Alike : UnparseError → UnparseError → Prop
  | unsupportedNode (text text' : String) : Alike (.unsupportedNode text) (.unsupportedNode text')
  | operandCount (operator : String) (expected got : Nat) :
      Alike (.operandCount operator expected got) (.operandCount operator expected got)
  | emptyBody (text text' : String) : Alike (.emptyBody text) (.emptyBody text')

/-- The same result, or errors of the same kind. -/
inductive Alike {α : Type} : Except UnparseError α → Except UnparseError α → Prop
  | ok (a : α) : Alike (.ok a) (.ok a)
  | error {err err' : UnparseError} (h : err.Alike err') : Alike (.error err) (.error err')

namespace Alike

variable {α β : Type} {x x' : Except UnparseError α}

theorem refl (x : Except UnparseError α) : Alike x x := by
  cases x with
  | ok a => exact .ok a
  | error err =>
      cases err with
      | unsupportedNode text => exact .error (.unsupportedNode text text)
      | operandCount operator expected got => exact .error (.operandCount operator expected got)
      | emptyBody text => exact .error (.emptyBody text text)

theorem bind (h : Alike x x') {f f' : α → Except UnparseError β} (hf : ∀ a, Alike (f a) (f' a)) :
    Alike (x >>= f) (x' >>= f') := by
  cases h with
  | ok a => exact hf a
  | error herr => exact .error herr

/-- Computations on the members of a list, one after the other. -/
theorem inOrder {γ : Type} {f : γ → Except UnparseError α}
    {F : List γ → Except UnparseError (List α)} (hF : InOrder f F) {cs cs' : List γ}
    (h : List.Forall₂ (fun c c' => Alike (f c) (f c')) cs cs') : Alike (F cs) (F cs') := by
  induction h with
  | nil => exact .refl _
  | cons hc _ ih =>
      rw [hF.cons, hF.cons]
      refine hc.bind fun a => ?_
      exact ih.bind fun as => .ok (a :: as)

theorem eq_ok_iff (h : Alike x x') (a : α) : x = .ok a ↔ x' = .ok a := by
  cases h with
  | ok b => exact Iff.rfl
  | error _ =>
      constructor
      · intro hok
        cases hok
      · intro hok
        cases hok

theorem of_eq_error (h : Alike x x') {err err' : UnparseError} (hx : x = .error err)
    (hx' : x' = .error err') : err.Alike err' := by
  cases h with
  | ok a => cases hx
  | error herr =>
      cases hx
      cases hx'
      exact herr

end Alike

/-! ## Expressions -/

theorem exists_error_of_not_ok {ε α : Type} {x : Except ε α} (h : ¬ ∃ a, x = .ok a) :
    ∃ err, x = .error err := by
  cases x with
  | ok a => exact absurd ⟨a, rfl⟩ h
  | error err => exact ⟨err, rfl⟩

theorem unparseAll_inOrder : InOrder (Expr.unparse .alone) Expr.unparseAll :=
  ⟨rfl, fun _ _ => rfl⟩

/-- An operator that is no primitive one is written as the callee of a call. -/
theorem unparse_app_of_prim?_eq_none {operator : Expr} (h : operator.prim? = none) (place : Place)
    (operands : List Expr) :
    (Expr.app operator operands).unparse place = (do
      let ts ← Expr.unparseAll operands
      let callee ← operator.unparse .alone
      .ok (callText callee ts)) := by
  cases operator with
  | prim name => cases h
  | _ => rfl

abbrev Expr.HaveTexts (es : List Expr) (ts : List String) : Prop :=
  List.Forall₂ (fun e t => e.unparse .alone = .ok t) es ts

/-- How the text of an expression at a place is put together from the texts of its parts. -/
inductive Expr.HasText (place : Place) : Expr → String → Prop
  | number (x : Float) : HasText place (.number x) (numberText x)
  | bool (b : Bool) : HasText place (.bool b) (boolText b)
  | str (s : String) : HasText place (.str s) (stringText s)
  | var (name : String) : HasText place (.var name) name
  | prim (name : String) : HasText place (.prim name) (operatorToken name)
  | cond {test yes no : Expr} {t₁ t₂ t₃ : String} (htest : test.unparse .part = .ok t₁)
      (hyes : yes.unparse .part = .ok t₂) (hno : no.unparse .part = .ok t₃) :
      HasText place (.cond test yes no) (condText t₁ t₂ t₃)
  | lambda (params : List String) {e : Expr} {es : List Expr} {t : String} {ts : List String}
      (hbody : HaveTexts (e :: es) (t :: ts)) :
      HasText place (.lambda params (e :: es)) (lambdaText params (t :: ts))
  | call {operator : Expr} {operands : List Expr} {callee : String} {ts : List String}
      (hprim : operator.prim? = none) (hcallee : operator.unparse .alone = .ok callee)
      (hoperands : HaveTexts operands ts) :
      HasText place (.app operator operands) (callText callee ts)
  | primCall {name : String} {operands : List Expr} {ts : List String}
      (hoperator : operator? name = none) (hoperands : HaveTexts operands ts) :
      HasText place (.app (.prim name) operands) (callText name ts)
  | operation {name : String} {operator : Operator} {operands : List Expr} {ts : List String}
      {t : String} (hoperator : operator? name = some operator) (hoperands : HaveTexts operands ts)
      (ht : operator.write? ts = some t) : HasText place (.app (.prim name) operands) (place.wrap t)

theorem Expr.eq_prim_of_prim? {e : Expr} {name : String} (h : e.prim? = some name) :
    e = .prim name := by
  cases e <;> cases h
  rfl

/-- **Every text is one of these.** -/
theorem hasText_of_unparse {e : Expr} {place : Place} {t : String} (h : e.unparse place = .ok t) :
    e.HasText place t := by
  cases e with
  | number x =>
      cases h
      exact .number x
  | bool b =>
      cases h
      exact .bool b
  | str s =>
      cases h
      exact .str s
  | var name =>
      cases h
      exact .var _
  | prim name =>
      cases h
      exact .prim name
  | literal d => cases h
  | cond test yes no =>
      obtain ⟨t₁, h₁, h⟩ := bind_eq_ok.1 h
      obtain ⟨t₂, h₂, h⟩ := bind_eq_ok.1 h
      obtain ⟨t₃, h₃, h⟩ := bind_eq_ok.1 h
      cases h
      exact .cond h₁ h₂ h₃
  | lambda params body =>
      cases body with
      | nil => cases h
      | cons e es =>
          obtain ⟨u, hu, h⟩ := bind_eq_ok.1 h
          obtain ⟨us, hus, h⟩ := bind_eq_ok.1 h
          cases h
          exact .lambda params (.cons hu (unparseAll_inOrder.eq_ok_iff.1 hus))
  | app operator operands =>
      cases hprim : operator.prim? with
      | none =>
          rw [unparse_app_of_prim?_eq_none hprim] at h
          obtain ⟨ts, hts, h⟩ := bind_eq_ok.1 h
          obtain ⟨callee, hcallee, h⟩ := bind_eq_ok.1 h
          cases h
          exact .call hprim hcallee (unparseAll_inOrder.eq_ok_iff.1 hts)
      | some name =>
          obtain rfl := Expr.eq_prim_of_prim? hprim
          obtain ⟨ts, hts, h⟩ := bind_eq_ok.1 h
          replace hts := unparseAll_inOrder.eq_ok_iff.1 hts
          replace h : primText place name ts = .ok t := h
          unfold primText at h
          split at h
          · rename_i hoperator
            cases h
            exact .primCall hoperator hts
          · rename_i operator hoperator
            split at h
            · rename_i u hu
              cases h
              exact .operation hoperator hts hu
            · cases h
  | letIn bindings body => cases h
  | dict entries => cases h

/-- What desugaring keeps, as far as JavaScript is concerned: an operator stays primitive or stays
none, and the texts are alike at every place. -/
structure Expr.UnparsesAlike (e e' : Expr) : Prop where
  prim?_eq : e.prim? = e'.prim?
  unparse : ∀ place, Alike (e.unparse place) (e'.unparse place)

theorem unparseAll_alike {es es' : List Expr} (h : List.Forall₂ Expr.UnparsesAlike es es') :
    Alike (Expr.unparseAll es) (Expr.unparseAll es') :=
  .inOrder unparseAll_inOrder (h.imp fun _ _ he => he.unparse .alone)

/-- **The texts of the same construct with parts that are alike are alike.** -/
theorem Expr.Congruent.unparse_alike {e e' : Expr} (h : e.Congruent Expr.UnparsesAlike e') :
    e.UnparsesAlike e' := by
  cases h with
  | leaf _ => exact ⟨rfl, fun place => .refl _⟩
  | cond ht hy hn =>
      refine ⟨rfl, fun place => ?_⟩
      refine (ht.unparse .part).bind fun t => ?_
      refine (hy.unparse .part).bind fun y => ?_
      exact (hn.unparse .part).bind fun n => .ok (condText t y n)
  | lambda params hb =>
      refine ⟨rfl, fun place => ?_⟩
      cases hb with
      | nil => exact .error (.emptyBody _ _)
      | cons he hes =>
          refine (he.unparse .alone).bind fun t => ?_
          exact (unparseAll_alike hes).bind fun ts => .ok (lambdaText params (t :: ts))
  | @app operator operator' operands operands' hf ha =>
      refine ⟨rfl, fun place => ?_⟩
      cases hprim : operator.prim? with
      | some name =>
          -- a primitive operator is written from the texts of its operands alone
          have hprim' : operator'.prim? = some name := hf.prim?_eq ▸ hprim
          have hoperator : operator = .prim name := by
            cases operator <;> simp_all [Expr.prim?]
          have hoperator' : operator' = .prim name := by
            cases operator' <;> simp_all [Expr.prim?]
          subst hoperator hoperator'
          exact (unparseAll_alike ha).bind fun ts => .refl (primText place name ts)
      | none =>
          have hprim' : operator'.prim? = none := hf.prim?_eq ▸ hprim
          rw [unparse_app_of_prim?_eq_none hprim, unparse_app_of_prim?_eq_none hprim']
          refine (unparseAll_alike ha).bind fun ts => ?_
          exact (hf.unparse .alone).bind fun callee => .ok (callText callee ts)
  | letIn _ _ => exact ⟨rfl, fun place => .error (.unsupportedNode _ _)⟩

/-- **Desugaring keeps the text of an expression**, and the kind of error where there is none. -/
theorem unparse_desugar_alike {policy : ValuePolicy} {e e' : Expr}
    (h : e.desugar policy = .ok e') : e.UnparsesAlike e' := by
  refine desugar_induction (motive := Expr.UnparsesAlike) ?_ ?_ h
  · intro e e' hcongr
    exact hcongr.unparse_alike
  · -- the quoted entries are an operand of the call, and refused before the callee is written
    intro entries entries' e' _ hcall
    obtain ⟨ds, _, rfl⟩ := lookupCall_eq_ok_iff.1 hcall
    exact ⟨rfl, fun place => .error (.unsupportedNode _ _)⟩

/-- What has a text holds no dictionary literal: every part of it has been written. -/
theorem hasDict_of_unparse {e : Expr} {place : Place} {t : String}
    (h : e.unparse place = .ok t) : e.hasDict = false := by
  have hall : ∀ {es : List Expr} {ts : List String},
      (∀ e ∈ es, ∀ {place t}, e.unparse place = .ok t → e.hasDict = false) →
      Expr.HaveTexts es ts → Expr.anyHasDict es = false := by
    intro es ts ih hes
    rw [Expr.anyHasDict_eq_false_iff]
    intro e he
    obtain ⟨t, _, ht⟩ := exists_mem_left_of_forall₂ hes.flip he
    exact ih e he ht
  induction e using Expr.parts_induction generalizing place t with
  | step e ih =>
      cases hasText_of_unparse h with
      | number _ | bool _ | str _ | var _ | prim _ => rfl
      | cond htest hyes hno =>
          simp only [Expr.parts, List.forall_mem_cons] at ih
          simp only [Expr.hasDict, ih.1 htest, ih.2.1 hyes, ih.2.2.1 hno, Bool.or_self]
      | lambda params hbody => exact hall ih hbody
      | call hprim hcallee hoperands =>
          obtain ⟨ihf, iha⟩ := List.forall_mem_cons.1 ih
          simp only [Expr.hasDict, ihf hcallee, hall iha hoperands, Bool.or_self]
      | primCall _ hoperands | operation _ hoperands _ =>
          simp only [Expr.hasDict, hall (List.forall_mem_cons.1 ih).2 hoperands, Bool.or_self]

/-! ## Forms and programs -/

theorem Form.toJavaScript_alike {policy : ValuePolicy} {f f' : Form}
    (h : f.desugar policy = .ok f') : Alike f.toJavaScript f'.toJavaScript := by
  cases Form.desugar_eq_ok_iff.1 h with
  | define name he =>
      exact ((unparse_desugar_alike he).unparse .alone).bind fun t => .refl _
  | expr he => exact (unparse_desugar_alike he).unparse .alone

theorem Form.javaScriptTexts_inOrder : InOrder Form.toJavaScript Form.javaScriptTexts :=
  ⟨rfl, fun _ _ => rfl⟩

theorem Form.hasDict_of_toJavaScript {f : Form} {t : String} (h : f.toJavaScript = .ok t) :
    f.hasDict = false := by
  cases f with
  | define name value =>
      obtain ⟨_, ht, _⟩ := bind_eq_ok.1 h
      exact hasDict_of_unparse ht
  | expr value => exact hasDict_of_unparse h

theorem Program.hasDict_of_toJavaScript {p : Program} {t : String}
    (h : p.toJavaScript = .ok t) : p.hasDict = false := by
  obtain ⟨ts, hts, _⟩ := bind_eq_ok.1 h
  rw [Program.hasDict_eq_false_iff]
  intro f hf
  obtain ⟨t, ht⟩ := Form.javaScriptTexts_inOrder.exists_ok_iff.1 ⟨ts, hts⟩ f hf
  exact Form.hasDict_of_toJavaScript ht

/-! ## The main statement -/

/-- The text of the lookup procedure. -/
theorem lookupDefinition_toJavaScript :
    lookupDefinition.toJavaScript = .ok ("const dict = ((pairs) => ((k) => (car(car(pairs)) === k"
      ++ " ? cdr(car(pairs)) : dict(cdr(pairs))(k))))") := rfl

/-- The text of a form in front of others stands alone, or is divided from the text of the others. -/
theorem joinWith_cons (separator s : String) (ts : List String) :
    joinWith separator (s :: ts)
      = if ts.isEmpty then s else s ++ separator ++ joinWith separator ts := by
  cases ts with
  | nil => rfl
  | cons t ts => rfl

/-- **The text of a desugared program is the text of the program**, behind the definition of the
lookup procedure. One of them exists exactly when the other does, and where neither does, both fail
with errors of the same kind: an error about the number of operands is the same. A program with a
dictionary literal has no text, neither before nor after. -/
theorem desugared_program_unparses_alike {policy : ValuePolicy} {p q : Program}
    (h : p.desugar policy = .ok q) :
    ((∃ t, q.toJavaScript = .ok t) ↔ ∃ t, p.toJavaScript = .ok t)
    ∧ (∀ t, p.toJavaScript = .ok t → ∃ s, lookupDefinition.toJavaScript = .ok s
        ∧ q.toJavaScript = .ok (if p.forms.isEmpty then s else s ++ ";\n" ++ t))
    ∧ (∀ err err', p.toJavaScript = .error err → q.toJavaScript = .error err' → err.Alike err')
    ∧ (p.hasDict = true →
        (∃ err, p.toJavaScript = .error err) ∧ ∃ err, q.toJavaScript = .error err) := by
  obtain ⟨q', hq', rfl⟩ := Program.desugar_eq_ok_iff.1 h
  have halike : Alike (Form.javaScriptTexts p.forms) (Form.javaScriptTexts q'.forms) :=
    .inOrder Form.javaScriptTexts_inOrder
      ((Program.desugarForms_eq_ok_iff.1 hq').imp fun _ _ hf => Form.toJavaScript_alike hf)
  obtain ⟨s, hs⟩ : ∃ s, lookupDefinition.toJavaScript = .ok s := ⟨_, lookupDefinition_toJavaScript⟩
  -- the definition in front has a text, so the forms behind it decide
  have htext : Program.toJavaScript ⟨lookupDefinition :: q'.forms⟩ = (do
      let ts ← Form.javaScriptTexts q'.forms
      .ok (joinWith ";\n" (s :: ts))) := by
    show ((lookupDefinition.toJavaScript >>= fun s => _) >>= fun ts => _) = _
    rw [hs]
    cases Form.javaScriptTexts q'.forms <;> rfl
  have hboth : Alike
      (Form.javaScriptTexts p.forms >>= fun ts => .ok (joinWith ";\n" (s :: ts)))
      (Program.toJavaScript ⟨lookupDefinition :: q'.forms⟩) := by
    rw [htext]
    exact halike.bind fun ts => .refl _
  have hiff : (∃ t, Program.toJavaScript ⟨lookupDefinition :: q'.forms⟩ = .ok t) ↔
      ∃ t, p.toJavaScript = .ok t := by
    constructor
    · rintro ⟨t, ht⟩
      obtain ⟨ts, hts, _⟩ := bind_eq_ok.1 ((hboth.eq_ok_iff t).2 ht)
      exact ⟨_, bind_eq_ok.2 ⟨ts, hts, rfl⟩⟩
    · rintro ⟨_, ht⟩
      obtain ⟨ts, hts, _⟩ := bind_eq_ok.1 ht
      exact ⟨_, (hboth.eq_ok_iff _).1 (bind_eq_ok.2 ⟨ts, hts, rfl⟩)⟩
  refine ⟨hiff, ?_, ?_, ?_⟩
  · intro t ht
    obtain ⟨ts, hts, htext⟩ := bind_eq_ok.1 ht
    cases htext
    refine ⟨s, hs, (hboth.eq_ok_iff _).1 ?_⟩
    have hempty : ts.isEmpty = p.forms.isEmpty := by
      have hforms := Form.javaScriptTexts_inOrder.eq_ok_iff.1 hts
      generalize p.forms = fs at hforms
      cases hforms <;> rfl
    rw [hts, ← hempty, ← joinWith_cons]
    rfl
  · intro err err' herr herr'
    apply hboth.of_eq_error _ herr'
    rcases bind_eq_error.1 herr with hforms | ⟨ts, _, hjoin⟩
    · exact bind_eq_error.2 (Or.inl hforms)
    · cases hjoin
  · intro hdict
    have hnone : ¬ ∃ t, p.toJavaScript = .ok t := by
      rintro ⟨t, ht⟩
      rw [Program.hasDict_of_toJavaScript ht] at hdict
      cases hdict
    constructor
    · exact exists_error_of_not_ok hnone
    · exact exists_error_of_not_ok (mt hiff.1 hnone)

/-- A program with a dictionary literal behind an operator that lacks an operand: both programs fail
at the operator. Without the literal there is a text, and it follows that of the definition. -/
theorem desugared_program_unparses_alike_operand :
    (∃ q err, (Program.mk [.expr (.app (.prim "+") [.bool true]),
          .expr (.dict [⟨.var "a", .bool true⟩])]).desugar .literal = .ok q
        ∧ q.toJavaScript = .error err ∧ (UnparseError.operandCount "+" 2 1).Alike err)
    ∧ ∃ q s, (Program.mk [.define "x" (.bool true)]).desugar .literal = .ok q
        ∧ lookupDefinition.toJavaScript = .ok s
        ∧ q.toJavaScript = .ok (s ++ ";\n" ++ "const x = true") := by
  constructor
  · have hdesugar : (Program.mk [.expr (.app (.prim "+") [.bool true]),
        .expr (.dict [⟨.var "a", .bool true⟩])]).desugar .literal = .ok _ := rfl
    obtain ⟨_, _, halike, hdict⟩ := desugared_program_unparses_alike hdesugar
    obtain ⟨_, err, herr⟩ := hdict rfl
    exact ⟨_, err, rfl, herr, halike _ err rfl herr⟩
  · have hdesugar : (Program.mk [.define "x" (.bool true)]).desugar .literal = .ok _ := rfl
    obtain ⟨s, hs, htext⟩ := (desugared_program_unparses_alike hdesugar).2.1 _ rfl
    exact ⟨_, s, rfl, hs, htext⟩

end L32
