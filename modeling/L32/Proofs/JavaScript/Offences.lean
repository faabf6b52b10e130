import L32.Proofs.JavaScript.Desugared

set_option autoImplicit false

/-! # Which error writing JavaScript reports

`Expr.offences` lists all reasons why an expression has no JavaScript text, in the order in which
they are met: the operands of an application before its operator, all operands also where only some
of them would be written, and the number of operands after the operands themselves. There is a text
exactly when there is no offence, and else the first offence is the error (`error?_unparse`). The
place of the expression does not matter, so the parts of a conditional are judged like any other
expression. -/

namespace L32

open JavaScript

/-! ## Offences -/

namespace JavaScript

def neededOperands (name : String) : Nat :=
  if name ∈ ["+", "-", "*", "/", "<", ">", "=", "eq?", "and", "or"] then 2
  else if name ∈ ["not", "number?", "boolean?"] then 1
  else 0

/-- The offence of an operator that lacks operands. -/
def lackOfOperands (name : String) (got : Nat) : List UnparseError :=
  if got < neededOperands name then [.operandCount name (neededOperands name) got] else []

end JavaScript

mutual

/-- **The offences of an expression** in order. Nothing inside a construct without a text counts. -/
def Expr.offences : Expr → List UnparseError
  | .number _ | .bool _ | .str _ | .var _ | .prim _ => []
  | .literal d => [.unsupportedNode (Expr.literal d).toScheme]
  | .cond test yes no => test.offences ++ yes.offences ++ no.offences
  | .lambda params [] => [.emptyBody (Expr.lambda params []).toScheme]
  | .lambda _ (e :: es) => e.offences ++ Expr.offencesIn es
  | .app operator operands =>
    Expr.offencesIn operands ++
      match operator with
      | .prim name => lackOfOperands name operands.length
      | _ => operator.offences
  | .letIn bindings body => [.unsupportedNode (Expr.letIn bindings body).toScheme]
  | .dict entries => [.unsupportedNode (Expr.dict entries).toScheme]

def Expr.offencesIn : List Expr → List UnparseError
  | [] => []
  | e :: es => e.offences ++ Expr.offencesIn es

end

def Program.offences (p : Program) : List UnparseError :=
  p.forms.flatMap fun f => f.expression.offences

theorem offencesIn_eq_flatMap (es : List Expr) :
    Expr.offencesIn es = es.flatMap Expr.offences := by
  induction es with
  | nil => rfl
  | cons e es ih => rw [Expr.offencesIn, ih, List.flatMap_cons]

theorem offences_app_of_prim?_eq_none {operator : Expr} (h : operator.prim? = none)
    (operands : List Expr) :
    (Expr.app operator operands).offences = Expr.offencesIn operands ++ operator.offences := by
  cases operator with
  | prim name => cases h
  | _ => rfl

/-! ## Operators -/

namespace JavaScript

theorem neededOperands_of_operator? {name : String} {operator : Operator}
    (h : operator? name = some operator) : neededOperands name = operator.needed := by
  unfold operator? at h
  split at h <;> cases h <;> rfl

theorem neededOperands_of_operator?_eq_none {name : String} (h : operator? name = none) :
    neededOperands name = 0 := by
  unfold operator? at h
  split at h
  all_goals cases h
  simp_all [neededOperands]

/-- An application is written exactly when there are enough operands. -/
theorem Operator.write?_eq_none_iff (operator : Operator) (ts : List String) :
    operator.write? ts = none ↔ ts.length < operator.needed := by
  cases operator with
  | chain symbol | equality =>
      match ts with
      | [] | [_] | _ :: _ :: _ => simp [write?, needed]
  | negation | typeTest type =>
      match ts with
      | [] | _ :: _ => simp [write?, needed]

/-- **A primitive operator fails exactly when it lacks operands**, whatever their texts are. -/
theorem error?_primText (place : Place) (name : String) (ts : List String) :
    error? (primText place name ts) = (lackOfOperands name ts.length).head? := by
  unfold primText lackOfOperands
  cases hoperator : operator? name with
  | none =>
      rw [neededOperands_of_operator?_eq_none hoperator, if_neg (Nat.not_lt_zero _)]
      rfl
  | some operator =>
      rw [neededOperands_of_operator? hoperator]
      simp only
      cases htext : operator.write? ts with
      | none =>
          rw [if_pos ((operator.write?_eq_none_iff ts).1 htext)]
          rfl
      | some t =>
          have henough : ¬ ts.length < operator.needed := by
            rw [← operator.write?_eq_none_iff ts, htext]
            exact Option.some_ne_none t
          rw [if_neg henough]
          rfl

end JavaScript

/-! ## Expressions -/

/-- The first offence of several expressions is that of the first one which has an offence. -/
theorem error?_unparseAll {es : List Expr}
    (ih : ∀ e ∈ es, ∀ place, error? (e.unparse place) = e.offences.head?) :
    error? (Expr.unparseAll es) = (Expr.offencesIn es).head? := by
  have hfirst : ∀ errs : List UnparseError, errs.findSome? some = errs.head? := by
    intro errs
    rw [← List.head?_filterMap, List.filterMap_some]
  rw [offencesIn_eq_flatMap, ← hfirst]
  refine unparseAll_inOrder.error?_eq_flatMap fun e he => ?_
  rw [hfirst, ih e he .alone]

/-- **Writing an expression fails with its first offence**, at every place. -/
theorem error?_unparse (e : Expr) (place : Place) :
    error? (e.unparse place) = e.offences.head? := by
  induction e using Expr.induction generalizing place with
  | leaf e he =>
      cases e with
      | number _ | bool _ | str _ | var _ | prim _ | literal _ => rfl
      | cond _ _ _ | lambda _ _ | app _ _ | letIn _ _ | dict _ => cases he
  | cond test yes no iht ihy ihn =>
      have hno : ∀ t y, error? (no.unparse .part >>= fun n => .ok (condText t y n))
          = no.offences.head? := fun t y => (error?_bind_ok _ _).trans (ihn .part)
      have hyes : ∀ t, error? (yes.unparse .part >>= fun y => no.unparse .part >>= fun n =>
          .ok (condText t y n)) = yes.offences.head?.or no.offences.head? := by
        intro t
        rw [error?_bind fun y _ => hno t y, ihy]
      show error? (test.unparse .part >>= _) = _
      rw [error?_bind fun t _ => hyes t, iht, Expr.offences, List.head?_append, List.head?_append,
        Option.or_assoc]
  | lambda params body ih =>
      cases body with
      | nil => rfl
      | cons e es =>
          rw [List.forall_mem_cons] at ih
          have hrest : ∀ t, error? (Expr.unparseAll es >>= fun ts =>
              .ok (lambdaText params (t :: ts))) = (Expr.offencesIn es).head? :=
            fun t => (error?_bind_ok _ _).trans (error?_unparseAll ih.2)
          show error? (e.unparse .alone >>= _) = _
          rw [error?_bind fun t _ => hrest t, ih.1, Expr.offences, List.head?_append]
  | app operator operands ihf iha =>
      cases hprim : operator.prim? with
      | some name =>
          obtain rfl := Expr.eq_prim_of_prim? hprim
          -- as many texts as operands: what is missing is counted on either
          have hcount : ∀ ts, Expr.unparseAll operands = .ok ts →
              error? (primText place name ts) = (lackOfOperands name operands.length).head? := by
            intro ts hts
            rw [error?_primText, (unparseAll_inOrder.eq_ok_iff.1 hts).length_eq]
          show error? (Expr.unparseAll operands >>= _) = _
          rw [error?_bind hcount, error?_unparseAll iha, Expr.offences, List.head?_append]
      | none =>
          have hcallee : ∀ ts, error? (operator.unparse .alone >>= fun callee =>
              .ok (callText callee ts)) = operator.offences.head? :=
            fun ts => (error?_bind_ok _ _).trans (ihf .alone)
          rw [unparse_app_of_prim?_eq_none hprim, offences_app_of_prim?_eq_none hprim,
            error?_bind fun ts _ => hcallee ts, error?_unparseAll iha, List.head?_append]
  | letIn bindings body _ _ => rfl
  | dict entries _ => rfl

/-! ## Forms and programs -/

theorem Form.error?_toJavaScript (f : Form) :
    error? f.toJavaScript = f.expression.offences.head? := by
  cases f with
  | define name value => exact (error?_bind_ok _ _).trans (error?_unparse value .alone)
  | expr value => exact error?_unparse value .alone

theorem Program.error?_toJavaScript (p : Program) : error? p.toJavaScript = p.offences.head? := by
  have hforms : error? p.toJavaScript = error? (Form.javaScriptTexts p.forms) := error?_bind_ok _ _
  rw [hforms, Form.javaScriptTexts_inOrder.error?_eq, Program.offences, List.head?_flatMap]
  simp only [Form.error?_toJavaScript]

/-! ## The main statement -/

/-- A computation whose error is the first of a list succeeds exactly when the list is empty, and
fails exactly with the first. -/
theorem ok_and_error_iff_of_error? {ε α : Type} {x : Except ε α} {errs : List ε}
    (h : error? x = errs.head?) :
    ((∃ a, x = .ok a) ↔ errs = []) ∧ ∀ err, x = .error err ↔ errs.head? = some err := by
  rw [← error?_eq_none_iff, h, List.head?_eq_none_iff]
  refine ⟨Iff.rfl, fun err => ?_⟩
  rw [← error?_eq_some_iff, h]

/-- **There is a JavaScript text exactly when there is no offence, and else the first offence is
reported**, for expressions, for forms, and for programs form by form. -/
theorem unparsing_reports_first_offence :
    (∀ e : Expr, ((∃ t, e.toJavaScript = .ok t) ↔ e.offences = [])
        ∧ ∀ err, e.toJavaScript = .error err ↔ e.offences.head? = some err)
    ∧ (∀ f : Form, ((∃ t, f.toJavaScript = .ok t) ↔ f.expression.offences = [])
        ∧ ∀ err, f.toJavaScript = .error err ↔ f.expression.offences.head? = some err)
    ∧ (∀ p : Program, ((∃ t, p.toJavaScript = .ok t) ↔ p.offences = [])
        ∧ ∀ err, p.toJavaScript = .error err ↔ p.offences.head? = some err) :=
  ⟨fun e => ok_and_error_iff_of_error? (error?_unparse e .alone),
    fun f => ok_and_error_iff_of_error? f.error?_toJavaScript,
    fun p => ok_and_error_iff_of_error? p.error?_toJavaScript⟩

end L32
