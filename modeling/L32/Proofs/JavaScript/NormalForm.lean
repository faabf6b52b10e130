import L32.Proofs.JavaScript.Desugared
import L32.Proofs.JavaScript.Phrases

set_option autoImplicit false

/-! # The JavaScript text determines the expression

Different expressions may have the same JavaScript text: `eq?` is written like `=`, operands that
are too many are left out, a primitive operator outside the table is called by its name, and some
doubles share a text. `Expr.normalize` removes these differences and keeps the text
(`unparse_normalize`). There are no others: the text of a plain expression is read as its normal
form (`read?_toJavaScript`). Both together are `text_determines_normal_form`.

An expression is plain (`Expr.isPlain`) if its names are identifiers, so that they cannot be taken
for other words, and if primitive operators are only applied. -/

namespace L32

open JavaScript

/-! ## Normal forms -/

mutual

/-- **The normal form of an expression**, which has the same text: operators by their canonical
names and with the operands that are written, calls of other primitive operators as calls of
variables, and one zero and one NaN. Constructs without a text stay as they are. -/
def Expr.normalize : Expr → Expr
  | .number x => .number (normalNumber x)
  | .cond test yes no => .cond test.normalize yes.normalize no.normalize
  | .lambda params body => .lambda params (Expr.normalizeAll body)
  | .app operator operands =>
    match operator with
    | .prim name =>
      match operator? name with
      | some op => .app (.prim (canonicalName name)) (op.kept (Expr.normalizeAll operands))
      | none => .app (.var name) (Expr.normalizeAll operands)
    | _ => .app operator.normalize (Expr.normalizeAll operands)
  | .bool b => .bool b
  | .str s => .str s
  | .var name => .var name
  | .prim name => .prim name
  | .literal d => .literal d
  | .letIn bindings body => .letIn bindings body
  | .dict entries => .dict entries

def Expr.normalizeAll : List Expr → List Expr
  | [] => []
  | e :: es => e.normalize :: Expr.normalizeAll es

end

mutual

/-- Whether primitive operators occur only as operators of applications, and all names that are
written as they are are identifiers. Of constructs without a text nothing is asked. -/
def Expr.isPlain : Expr → Bool
  | .number _ | .bool _ | .str _ | .literal _ | .letIn _ _ | .dict _ => true
  | .var name => isIdentifier name
  | .prim _ => false
  | .cond test yes no => test.isPlain && yes.isPlain && no.isPlain
  | .lambda params body => params.all isIdentifier && Expr.allPlain body
  | .app operator operands =>
    (match operator with
      | .prim name => (operator? name).isSome || isIdentifier name
      | _ => operator.isPlain) && Expr.allPlain operands

def Expr.allPlain : List Expr → Bool
  | [] => true
  | e :: es => e.isPlain && Expr.allPlain es

end

theorem normalizeAll_eq_map (es : List Expr) :
    Expr.normalizeAll es = es.map Expr.normalize := by
  induction es with
  | nil => rfl
  | cons e es ih => rw [Expr.normalizeAll, ih, List.map_cons]

theorem allPlain_iff (es : List Expr) : Expr.allPlain es = true ↔ ∀ e ∈ es, e.isPlain = true := by
  induction es with
  | nil => simp [Expr.allPlain]
  | cons e es ih => rw [Expr.allPlain, Bool.and_eq_true, ih, List.forall_mem_cons]

section Application

variable {operator : Expr} (h : operator.prim? = none) (operands : List Expr)
include h

theorem normalize_app_of_prim?_eq_none :
    (Expr.app operator operands).normalize
      = .app operator.normalize (Expr.normalizeAll operands) := by
  cases operator with
  | prim name => cases h
  | _ => rfl

theorem isPlain_app_of_prim?_eq_none :
    (Expr.app operator operands).isPlain = (operator.isPlain && Expr.allPlain operands) := by
  cases operator with
  | prim name => cases h
  | _ => rfl

end Application

/-- **What is read of the text of an expression at a place**: the items are a part of a conditional
that is its normal form, and on its own they are just this one expression. -/
def Recovers (e : Expr) (place : Place) (t : String) : Prop :=
  ∃ items, Reads t items ∧ Inert items ∧ part? items = some e.normalize
    ∧ (place = .alone → items = [.expr e.normalize])

namespace Recovers

variable {e : Expr} {t : String}

theorem of_reads (h : Reads t [.expr e.normalize]) (place : Place) : Recovers e place t :=
  ⟨_, h, inert_expr _, rfl, fun _ => rfl⟩

theorem reads (h : Recovers e .alone t) : Reads t [.expr e.normalize] := by
  obtain ⟨items, hreads, _, _, hitems⟩ := h
  rwa [hitems rfl] at hreads

/-- The texts of operands and bodies. -/
theorem forall₂_reads {es : List Expr} {ts : List String}
    (ih : ∀ e ∈ es, e.isPlain = true → ∀ place t, e.unparse place = .ok t → Recovers e place t)
    (hplain : Expr.allPlain es = true) (hts : Expr.HaveTexts es ts) :
    List.Forall₂ (fun t e => Reads t [.expr e]) ts (Expr.normalizeAll es) := by
  rw [normalizeAll_eq_map, List.forall₂_map_right_iff]
  refine (forall₂_imp_of_mem (fun e he t ht => ?_) hts).flip
  exact (ih e he ((allPlain_iff es).1 hplain e he) .alone t ht).reads

end Recovers

/-- The application of an operator of the table: in parentheses it is one expression. -/
theorem recovers_operation {name : String} {operator : Operator} {operands : List Expr}
    {ts : List String} {t : String} (hoperator : operator? name = some operator)
    (hts : List.Forall₂ (fun t e => Reads t [.expr e]) ts (Expr.normalizeAll operands))
    (ht : operator.write? ts = some t) (place : Place) :
    Recovers (.app (.prim name) operands) place (place.wrap t) := by
  obtain ⟨items, hitems, hinert, hoperation⟩ := exists_reads_write hoperator hts ht
  have hnormal : (Expr.app (.prim name) operands).normalize
      = .app (.prim (canonicalName name)) (operator.kept (Expr.normalizeAll operands)) := by
    simp only [Expr.normalize, hoperator]
  rw [← hnormal] at hoperation
  cases place with
  | part => exact ⟨items, hitems, hinert, part?_of_operation? hoperation, fun h => by cases h⟩
  | alone =>
      refine .of_reads ?_ .alone
      exact hitems.simpleGroup hinert (simpleGroup?_of_operation? hoperation)

/-- **The text of a plain expression is read as its normal form.** -/
theorem recovers_of_unparse (e : Expr) :
    e.isPlain = true → ∀ place t, e.unparse place = .ok t → Recovers e place t := by
  induction e using Expr.parts_induction with
  | step e ih =>
      intro hplain place t h
      cases hasText_of_unparse h with
      | number x => exact .of_reads (reads_numberText x) place
      | bool b => exact .of_reads (reads_boolText b) place
      | str s => exact .of_reads (reads_stringText s) place
      | var name => exact .of_reads (reads_identifier hplain) place
      | prim name => cases hplain
      | @cond test yes no t₁ t₂ t₃ h₁ h₂ h₃ =>
          simp only [Expr.isPlain, Bool.and_eq_true] at hplain
          simp only [Expr.parts, List.forall_mem_cons] at ih
          obtain ⟨is₁, hr₁, hi₁, hp₁, _⟩ := ih.1 hplain.1.1 .part t₁ h₁
          obtain ⟨is₂, hr₂, hi₂, hp₂, _⟩ := ih.2.1 hplain.1.2 .part t₂ h₂
          obtain ⟨is₃, hr₃, hi₃, hp₃, _⟩ := ih.2.2.1 hplain.2 .part t₃ h₃
          exact .of_reads (reads_condText hr₁ hr₂ hr₃ hi₁ hi₂ hi₃ hp₁ hp₂ hp₃) place
      | lambda params hbody =>
          rw [Expr.isPlain, Bool.and_eq_true, List.all_eq_true] at hplain
          obtain ⟨hparams, hplain⟩ := hplain
          cases Recovers.forall₂_reads ih hplain hbody with
          | cons ht hts => exact .of_reads (reads_lambdaText hparams ht hts) place
      | call hprim hcallee hoperands =>
          rw [isPlain_app_of_prim?_eq_none hprim, Bool.and_eq_true] at hplain
          obtain ⟨ihf, iha⟩ := List.forall_mem_cons.1 ih
          refine .of_reads ?_ place
          rw [normalize_app_of_prim?_eq_none hprim]
          exact reads_callText (ihf hplain.1 .alone _ hcallee).reads
            (Recovers.forall₂_reads iha hplain.2 hoperands)
      | @primCall name operands ts hoperator hoperands =>
          rw [Expr.isPlain, Bool.and_eq_true] at hplain
          obtain ⟨hname, hplain⟩ := hplain
          have hidentifier : isIdentifier name = true := by simpa [hoperator] using hname
          have hnormal : (Expr.app (.prim name) operands).normalize
              = .app (.var name) (Expr.normalizeAll operands) := by
            simp only [Expr.normalize, hoperator]
          refine .of_reads ?_ place
          rw [hnormal]
          exact reads_callText (reads_identifier hidentifier)
            (Recovers.forall₂_reads (List.forall_mem_cons.1 ih).2 hplain hoperands)
      | operation hoperator hoperands ht =>
          rw [Expr.isPlain, Bool.and_eq_true] at hplain
          exact recovers_operation hoperator
            (Recovers.forall₂_reads (List.forall_mem_cons.1 ih).2 hplain.2 hoperands) ht place

theorem read?_toJavaScript {e : Expr} (hplain : e.isPlain = true) {t : String}
    (h : e.toJavaScript = .ok t) : read? t = some e.normalize :=
  (recovers_of_unparse e hplain .alone t h).reads.read?_eq

/-! ## Normal forms have the same text -/

theorem numberText_normalNumber (x : Float) : numberText (normalNumber x) = numberText x := by
  have hnan : numberText notANumber = "NaN" := rfl
  have hzero : numberText (Float.ofBits 0) = "0" := rfl
  cases hx : Double.ofFloat x with
  | notANumber =>
      have htext : numberText x = "NaN" := by simp [numberText, hx]
      rw [htext, ← hnan]
      simp [normalNumber, hx]
  | infinite negative => simp [normalNumber, hx]
  | finite negative mantissa exponent =>
      by_cases hm : mantissa = 0
      · have htext : numberText x = "0" := by simp [numberText, hx, hm]
        rw [htext, ← hzero]
        simp [normalNumber, hx, hm]
      · simp [normalNumber, hx, hm]

theorem operator?_canonicalName (name : String) :
    operator? (canonicalName name) = operator? name := by
  unfold canonicalName
  by_cases h : name = "eq?"
  · rw [if_pos h, h]
    rfl
  · rw [if_neg h]

/-- The operands that are not kept do not matter. -/
theorem write?_kept (operator : Operator) (ts : List String) :
    operator.write? (operator.kept ts) = operator.write? ts := by
  cases operator with
  | chain symbol => rfl
  | equality => obtain _ | ⟨t, _ | ⟨u, ts⟩⟩ := ts <;> rfl
  | negation => obtain _ | ⟨t, ts⟩ := ts <;> rfl
  | typeTest type => obtain _ | ⟨t, ts⟩ := ts <;> rfl

theorem forall₂_kept {α β : Type} {R : α → β → Prop} (operator : Operator) {as : List α}
    {bs : List β} (h : List.Forall₂ R as bs) :
    List.Forall₂ R (operator.kept as) (operator.kept bs) := by
  cases operator with
  | chain symbol => exact h
  | equality => exact List.forall₂_take 2 h
  | negation => exact List.forall₂_take 1 h
  | typeTest type => exact List.forall₂_take 1 h

theorem prim?_normalize (e : Expr) : e.normalize.prim? = e.prim? := by
  cases e with
  | app operator operands =>
      cases hprim : operator.prim? with
      | none =>
          rw [normalize_app_of_prim?_eq_none hprim]
          rfl
      | some name =>
          obtain rfl := Expr.eq_prim_of_prim? hprim
          unfold Expr.normalize
          simp only
          split <;> rfl
  | _ => rfl

theorem unparseAll_normalizeAll {es : List Expr} {ts : List String}
    (ih : ∀ e ∈ es, ∀ place t, e.unparse place = .ok t → e.normalize.unparse place = .ok t)
    (h : Expr.unparseAll es = .ok ts) : Expr.unparseAll (Expr.normalizeAll es) = .ok ts := by
  rw [normalizeAll_eq_map, unparseAll_inOrder.eq_ok_iff, List.forall₂_map_left_iff]
  exact forall₂_imp_of_mem (fun e he t => ih e he .alone t) (unparseAll_inOrder.eq_ok_iff.1 h)

/-- **A normal form has the text of the expression.** -/
theorem unparse_normalize (e : Expr) :
    ∀ place t, e.unparse place = .ok t → e.normalize.unparse place = .ok t := by
  induction e using Expr.induction with
  | leaf e hleaf =>
      intro place t h
      cases e with
      | number x =>
          rw [← h]
          exact congrArg Except.ok (numberText_normalNumber x)
      | bool b => exact h
      | str s => exact h
      | var name => exact h
      | prim name => exact h
      | literal d => exact h
      | _ => cases hleaf
  | cond test yes no iht ihy ihn =>
      intro place t h
      obtain ⟨t₁, h₁, h⟩ := bind_eq_ok.1 h
      obtain ⟨t₂, h₂, h⟩ := bind_eq_ok.1 h
      obtain ⟨t₃, h₃, h⟩ := bind_eq_ok.1 h
      exact bind_eq_ok.2 ⟨t₁, iht _ _ h₁, bind_eq_ok.2 ⟨t₂, ihy _ _ h₂,
        bind_eq_ok.2 ⟨t₃, ihn _ _ h₃, h⟩⟩⟩
  | lambda params body ih =>
      intro place t h
      cases body with
      | nil => cases h
      | cons e es =>
          obtain ⟨u, hu, h⟩ := bind_eq_ok.1 h
          obtain ⟨us, hus, h⟩ := bind_eq_ok.1 h
          have htail := unparseAll_normalizeAll (fun e he => ih e (List.mem_cons_of_mem _ he)) hus
          exact bind_eq_ok.2 ⟨u, ih e List.mem_cons_self _ _ hu, bind_eq_ok.2 ⟨us, htail, h⟩⟩
  | app operator operands ihf iha =>
      intro place t h
      cases hprim : operator.prim? with
      | none =>
          rw [unparse_app_of_prim?_eq_none hprim] at h
          obtain ⟨ts, hts, h⟩ := bind_eq_ok.1 h
          obtain ⟨callee, hcallee, h⟩ := bind_eq_ok.1 h
          rw [normalize_app_of_prim?_eq_none hprim,
            unparse_app_of_prim?_eq_none ((prim?_normalize operator).trans hprim)]
          exact bind_eq_ok.2 ⟨ts, unparseAll_normalizeAll iha hts,
            bind_eq_ok.2 ⟨callee, ihf _ _ hcallee, h⟩⟩
      | some name =>
          obtain rfl := Expr.eq_prim_of_prim? hprim
          obtain ⟨ts, hts, h⟩ := bind_eq_ok.1 h
          replace h : primText place name ts = .ok t := h
          have htexts := unparseAll_normalizeAll iha hts
          unfold Expr.normalize
          simp only
          unfold primText at h
          cases hoperator : operator? name with
          | none =>
              simp only [hoperator] at h ⊢
              exact bind_eq_ok.2 ⟨ts, htexts, h⟩
          | some op =>
              simp only [hoperator] at h ⊢
              have hkept : Expr.unparseAll (op.kept (Expr.normalizeAll operands))
                  = .ok (op.kept ts) :=
                unparseAll_inOrder.eq_ok_iff.2
                  (forall₂_kept op (unparseAll_inOrder.eq_ok_iff.1 htexts))
              refine bind_eq_ok.2 ⟨op.kept ts, hkept, ?_⟩
              show primText place (canonicalName name) (op.kept ts) = _
              unfold primText
              rw [operator?_canonicalName, hoperator]
              simp only [write?_kept]
              split at h
              · exact h
              · cases h
  | letIn bindings body _ _ =>
      intro place t h
      exact h
  | dict entries _ =>
      intro place t h
      exact h

/-- **The JavaScript text determines the expression**, up to the differences that a normal form
removes: two plain expressions have the same text exactly if they have the same normal form. -/
theorem text_determines_normal_form {e₁ e₂ : Expr} (hplain₁ : e₁.isPlain = true)
    (hplain₂ : e₂.isPlain = true) {t₁ t₂ : String} (h₁ : e₁.toJavaScript = .ok t₁)
    (h₂ : e₂.toJavaScript = .ok t₂) : t₁ = t₂ ↔ e₁.normalize = e₂.normalize := by
  constructor
  · rintro rfl
    have hread := read?_toJavaScript hplain₁ h₁
    rw [read?_toJavaScript hplain₂ h₂, Option.some.injEq] at hread
    exact hread.symm
  · intro hnormal
    have htext := unparse_normalize e₁ .alone t₁ h₁
    rw [hnormal, unparse_normalize e₂ .alone t₂ h₂, Except.ok.injEq] at htext
    exact htext.symm

/-- Two expressions that differ in all respects that a normal form removes but the NaNs: the
operator, an operand too many, the kind of the callee and the sign of zero. -/
theorem text_determines_normal_form_conditional :
    ∃ e₁ e₂ : Expr,
      e₁ = .cond (.app (.prim "eq?") [.var "x", .number (Float.ofBits 0), .bool true])
        (.app (.prim "car") [.var "x"]) (.str "?") ∧
      e₂ = .cond (.app (.prim "=") [.var "x", .number (Float.ofBits 0x8000000000000000)])
        (.app (.var "car") [.var "x"]) (.str "?") ∧
      e₁.isPlain = true ∧ e₂.isPlain = true ∧
      e₁.toJavaScript = .ok "(x === 0 ? car(x) : \"?\")" ∧
      e₂.toJavaScript = .ok "(x === 0 ? car(x) : \"?\")" ∧ e₁.normalize = e₂.normalize := by
  refine ⟨_, _, rfl, rfl, rfl, rfl, rfl, rfl, ?_⟩
  exact (text_determines_normal_form rfl rfl rfl rfl).1 rfl

end L32
