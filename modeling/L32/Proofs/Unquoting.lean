import L32.Proofs.Quoting

set_option autoImplicit false

/-! # Quoted code read back

Quoting turns code into untagged lists: a conditional, a procedure, a `let`, a nested quotation and
a call all become chains of pairs. `Datum.toExpr` reads them back. It tells them apart by the symbol
in front, so it is right unless a call has the name of a keyword in that place, and it reads every
symbol as a variable, because a primitive operator is quoted like one.

`toExpr_of_quoteCode` is the round trip: what was quoted is read as the expression with its
primitive operators turned into variables. Hence quoting loses nothing else, which is the main
statement `quoted_code_determines_expression`. -/

namespace L32

/-! ## Primitive operators as variables -/

mutual

/-- The expression with every primitive operator replaced by the variable of that name. -/
def Expr.primsToVars : Expr → Expr
  | .prim name => .var name
  | .cond test yes no => .cond test.primsToVars yes.primsToVars no.primsToVars
  | .lambda params body => .lambda params (Expr.allPrimsToVars body)
  | .app operator operands => .app operator.primsToVars (Expr.allPrimsToVars operands)
  | .letIn bindings body => .letIn (Expr.bindingPrimsToVars bindings) (Expr.allPrimsToVars body)
  | .dict entries => .dict (Expr.entryPrimsToVars entries)
  | .number x => .number x
  | .bool b => .bool b
  | .str s => .str s
  | .var name => .var name
  | .literal d => .literal d

def Expr.allPrimsToVars : List Expr → List Expr
  | [] => []
  | e :: es => e.primsToVars :: Expr.allPrimsToVars es

def Expr.bindingPrimsToVars : List (Binding Expr) → List (Binding Expr)
  | [] => []
  | ⟨name, e⟩ :: bs => ⟨name, e.primsToVars⟩ :: Expr.bindingPrimsToVars bs

def Expr.entryPrimsToVars : List (Entry Expr) → List (Entry Expr)
  | [] => []
  | ⟨k, e⟩ :: es => ⟨k.primsToVars, e.primsToVars⟩ :: Expr.entryPrimsToVars es

end

namespace Expr

theorem allPrimsToVars_eq_map (es : List Expr) : allPrimsToVars es = es.map primsToVars := by
  induction es with
  | nil => rfl
  | cons e es ih => rw [allPrimsToVars, ih, List.map_cons]

theorem bindingPrimsToVars_eq_map (bs : List (Binding Expr)) :
    bindingPrimsToVars bs = bs.map fun b => ⟨b.name, b.value.primsToVars⟩ := by
  induction bs with
  | nil => rfl
  | cons b bs ih => rw [bindingPrimsToVars, ih, List.map_cons]

theorem quoteCodes_primsToVars {es : List Expr} {ds : List Datum}
    (ih : ∀ e ∈ es, ∀ d, e.quoteCode = .ok d → e.primsToVars.quoteCode = .ok d)
    (h : quoteCodes es = .ok ds) : quoteCodes (allPrimsToVars es) = .ok ds := by
  rw [allPrimsToVars_eq_map, quoteCodes_inOrder.eq_ok_iff, List.forall₂_map_left_iff]
  exact forall₂_imp_of_mem ih (quoteCodes_inOrder.eq_ok_iff.1 h)

theorem quoteBindings_primsToVars {bs : List (Binding Expr)} {ds : List Datum}
    (ih : ∀ b ∈ bs, ∀ d, b.value.quoteCode = .ok d → b.value.primsToVars.quoteCode = .ok d)
    (h : quoteBindings bs = .ok ds) : quoteBindings (bindingPrimsToVars bs) = .ok ds := by
  rw [bindingPrimsToVars_eq_map, quoteBindings_inOrder.eq_ok_iff, List.forall₂_map_left_iff]
  refine forall₂_imp_of_mem (fun b hb d hd => ?_) (quoteBindings_inOrder.eq_ok_iff.1 h)
  obtain ⟨v, hv, rfl⟩ := map_eq_ok.1 hd
  exact map_eq_ok.2 ⟨v, ih b hb v hv, rfl⟩

/-- **A primitive operator is quoted like a variable.** -/
theorem quoteCode_primsToVars {e : Expr} {d : Datum} (h : e.quoteCode = .ok d) :
    e.primsToVars.quoteCode = .ok d := by
  induction e using Expr.induction generalizing d with
  | leaf e he =>
      cases e with
      | number _ | bool _ | str _ | var _ | prim _ | literal _ => exact h
      | cond _ _ _ | lambda _ _ | app _ _ | letIn _ _ | dict _ => cases he
  | cond test yes no iht ihy ihn =>
      simp only [primsToVars, quoteCode, bind_eq_ok] at h ⊢
      obtain ⟨t, ht, y, hy, n, hn, h⟩ := h
      exact ⟨t, iht ht, y, ihy hy, n, ihn hn, h⟩
  | lambda params body ih =>
      simp only [primsToVars, quoteCode, bind_eq_ok] at h ⊢
      obtain ⟨ds, hds, h⟩ := h
      exact ⟨ds, quoteCodes_primsToVars (fun e he _ => ih e he) hds, h⟩
  | app operator operands ihf iha =>
      simp only [primsToVars, quoteCode, bind_eq_ok] at h ⊢
      obtain ⟨f, hf, ds, hds, h⟩ := h
      exact ⟨f, ihf hf, ds, quoteCodes_primsToVars (fun e he _ => iha e he) hds, h⟩
  | letIn bindings body ihd ihb =>
      simp only [primsToVars, quoteCode, bind_eq_ok] at h ⊢
      obtain ⟨bs, hbs, ds, hds, h⟩ := h
      exact ⟨bs, quoteBindings_primsToVars (fun b hb _ => ihd b hb) hbs, ds,
        quoteCodes_primsToVars (fun e he _ => ihb e he) hds, h⟩
  | dict entries _ => cases h

end Expr

/-! ## Reading code -/

/-- The names that the symbols of a list denote. -/
def Datum.toNames : Datum → List String
  | .pair (.symbol name) t => name :: t.toNames
  | _ => []

mutual

/-- **The expression that quoted code denotes.** -/
def Datum.toExpr : Datum → Expr
  | .symbol name => .var name
  | .number x => .number x
  | .bool b => .bool b
  | .str s => .str s
  | .empty => .literal .empty
  | .pair (.symbol "quote") (.pair d _) => .literal d
  | .pair (.symbol "if") (.pair test (.pair yes (.pair no _))) =>
    .cond test.toExpr yes.toExpr no.toExpr
  | .pair (.symbol "lambda") (.pair params body) => .lambda params.toNames body.toExprs
  | .pair (.symbol "let") (.pair bindings body) => .letIn bindings.toBindings body.toExprs
  | .pair operator operands => .app operator.toExpr operands.toExprs

def Datum.toExprs : Datum → List Expr
  | .pair h t => h.toExpr :: t.toExprs
  | _ => []

def Datum.toBindings : Datum → List (Binding Expr)
  | .pair (.pair (.symbol name) (.pair d _)) t => ⟨name, d.toExpr⟩ :: t.toBindings
  | _ => []

end

/-! ## The round trip -/

/-- Whether the expression is a call of a variable or a primitive operator with the name of a
keyword. -/
def Expr.isKeywordCall : Expr → Bool
  | .app (.var name) _ | .app (.prim name) _ => keywords.contains name
  | _ => false

/-- No call of a keyword occurs in the expression. -/
def Expr.KeywordFree (e : Expr) : Prop :=
  ∀ c : Expr, c.Occurs e → c.isKeywordCall = false

theorem Expr.keywordFree_iff {e : Expr} :
    e.KeywordFree ↔ e.isKeywordCall = false ∧ ∀ c ∈ e.parts, c.KeywordFree :=
  Expr.forall_occurs_iff

theorem Expr.KeywordFree.of_mem_parts {c e : Expr} (h : e.KeywordFree) (hc : c ∈ e.parts) :
    c.KeywordFree :=
  (Expr.keywordFree_iff.1 h).2 c hc

namespace Datum

/-- A list without a keyword in front is a call. -/
theorem toExpr_pair {operator : Datum} (h : ∀ name ∈ keywords, operator ≠ .symbol name)
    (operands : Datum) :
    (Datum.pair operator operands).toExpr = .app operator.toExpr operands.toExprs := by
  simp only [keywords, List.forall_mem_cons] at h
  obtain ⟨hif, hlambda, hlet, hquote, _⟩ := h
  rw [toExpr] <;> simp_all

theorem toNames_ofList (names : List String) : (ofList (names.map symbol)).toNames = names := by
  induction names with
  | nil => rfl
  | cons name names ih =>
      show name :: (ofList (names.map symbol)).toNames = _
      rw [ih]

end Datum

namespace Expr

/-- Only variables and primitive operators are quoted as symbols. -/
theorem eq_of_quoteCode_symbol {e : Expr} {name : String} (h : e.quoteCode = .ok (.symbol name)) :
    e = .var name ∨ e = .prim name := by
  cases e with
  | var name' | prim name' =>
      cases h
      simp
  | number _ | bool _ | str _ | literal _ | dict _ => cases h
  | cond _ _ _ | lambda _ _ | app _ _ | letIn _ _ =>
      simp [quoteCode, bind_eq_ok, Datum.headed, Datum.ofList, Datum.chain] at h

theorem toExprs_of_quoteCodes {es : List Expr} {ds : List Datum}
    (ih : ∀ e ∈ es, ∀ d, e.quoteCode = .ok d → d.toExpr = e.primsToVars)
    (h : quoteCodes es = .ok ds) : (Datum.ofList ds).toExprs = allPrimsToVars es := by
  induction es generalizing ds with
  | nil =>
      cases h
      rfl
  | cons e es ihes =>
      simp only [quoteCodes, bind_eq_ok] at h
      obtain ⟨d, hd, ds, hds, h⟩ := h
      cases h
      rw [List.forall_mem_cons] at ih
      show d.toExpr :: (Datum.ofList ds).toExprs = _
      rw [ih.1 d hd, ihes ih.2 hds, allPrimsToVars]

theorem toBindings_of_quoteBindings {bs : List (Binding Expr)} {ds : List Datum}
    (ih : ∀ b ∈ bs, ∀ d, b.value.quoteCode = .ok d → d.toExpr = b.value.primsToVars)
    (h : quoteBindings bs = .ok ds) : (Datum.ofList ds).toBindings = bindingPrimsToVars bs := by
  induction bs generalizing ds with
  | nil =>
      cases h
      rfl
  | cons b bs ihbs =>
      simp only [quoteBindings, bind_eq_ok] at h
      obtain ⟨d, hd, ds, hds, h⟩ := h
      cases h
      rw [List.forall_mem_cons] at ih
      show ⟨b.name, d.toExpr⟩ :: (Datum.ofList ds).toBindings = _
      rw [ih.1 d hd, ihbs ih.2 hds, bindingPrimsToVars]

/-- **Quoted code is read as the expression that was quoted**, with its primitive operators as
variables. -/
theorem toExpr_of_quoteCode {e : Expr} (hfree : e.KeywordFree) {d : Datum}
    (h : e.quoteCode = .ok d) : d.toExpr = e.primsToVars := by
  induction e using Expr.induction generalizing d with
  | leaf e he =>
      cases e with
      | number _ | bool _ | str _ | var _ | prim _ | literal _ =>
          cases h
          rfl
      | cond _ _ _ | lambda _ _ | app _ _ | letIn _ _ | dict _ => cases he
  | cond test yes no iht ihy ihn =>
      simp only [quoteCode, bind_eq_ok] at h
      obtain ⟨t, ht, y, hy, n, hn, h⟩ := h
      cases h
      show Expr.cond t.toExpr y.toExpr n.toExpr = _
      rw [iht (hfree.of_mem_parts (by simp [parts])) ht,
        ihy (hfree.of_mem_parts (by simp [parts])) hy,
        ihn (hfree.of_mem_parts (by simp [parts])) hn, primsToVars]
  | lambda params body ih =>
      simp only [quoteCode, bind_eq_ok] at h
      obtain ⟨ds, hds, h⟩ := h
      cases h
      show Expr.lambda (Datum.ofList (params.map .symbol)).toNames (Datum.ofList ds).toExprs = _
      rw [Datum.toNames_ofList,
        toExprs_of_quoteCodes (fun e he d => ih e he (hfree.of_mem_parts he)) hds, primsToVars]
  | app operator operands ihf iha =>
      simp only [quoteCode, bind_eq_ok] at h
      obtain ⟨d, hd, ds, hds, h⟩ := h
      cases h
      -- the operator is no keyword, neither as a variable nor as a primitive operator
      have hcall := hfree _ .here
      have hhead : ∀ name ∈ keywords, d ≠ .symbol name := by
        rintro name hname rfl
        obtain rfl | rfl := eq_of_quoteCode_symbol hd
        · simp [isKeywordCall, hname] at hcall
        · simp [isKeywordCall, hname] at hcall
      have hoperands : ∀ e ∈ operands, e.KeywordFree := fun e he =>
        hfree.of_mem_parts (List.mem_cons_of_mem _ he)
      show (Datum.pair d (Datum.ofList ds)).toExpr = _
      rw [Datum.toExpr_pair hhead, ihf (hfree.of_mem_parts (by simp [parts])) hd,
        toExprs_of_quoteCodes (fun e he d => iha e he (hoperands e he)) hds, primsToVars]
  | letIn bindings body ihd ihb =>
      simp only [quoteCode, bind_eq_ok] at h
      obtain ⟨bs, hbs, ds, hds, h⟩ := h
      cases h
      have hvalue : ∀ b ∈ bindings, b.value.KeywordFree := fun b hb =>
        hfree.of_mem_parts (List.mem_append_left _ (List.mem_map_of_mem hb))
      have hbody : ∀ e ∈ body, e.KeywordFree := fun e he =>
        hfree.of_mem_parts (List.mem_append_right _ he)
      show Expr.letIn (Datum.ofList bs).toBindings (Datum.ofList ds).toExprs = _
      rw [toBindings_of_quoteBindings (fun b hb d => ihd b hb (hvalue b hb)) hbs,
        toExprs_of_quoteCodes (fun e he d => ihb e he (hbody e he)) hds, primsToVars]
  | dict entries _ => cases h

end Expr

/-! ## Equal numbers -/

namespace Datum

/-- Two values that differ at most in numbers that are equal as numbers. -/
inductive Same : Datum → Datum → Prop
  | symbol (name : String) : Same (.symbol name) (.symbol name)
  | number {x y : Float} (h : (x == y) = true) : Same (.number x) (.number y)
  | bool (b : Bool) : Same (.bool b) (.bool b)
  | str (s : String) : Same (.str s) (.str s)
  | pair {h h' t t' : Datum} (hh : Same h h') (ht : Same t t') : Same (.pair h t) (.pair h' t')
  | empty : Same .empty .empty

theorem same_iff {d d' : Datum} : d.same d' = true ↔ d.Same d' := by
  constructor
  · intro h
    induction d generalizing d' with
    | pair a b iha ihb =>
        cases d' with
        | pair a' b' =>
            simp only [same, Bool.and_eq_true] at h
            exact .pair (iha h.1) (ihb h.2)
        | _ => cases h
    | symbol name =>
        cases d' <;> simp only [same, beq_iff_eq, Bool.false_eq_true] at h
        subst h
        exact .symbol _
    | bool b =>
        cases d' <;> simp only [same, beq_iff_eq, Bool.false_eq_true] at h
        subst h
        exact .bool _
    | str s =>
        cases d' <;> simp only [same, beq_iff_eq, Bool.false_eq_true] at h
        subst h
        exact .str _
    | number x =>
        cases d' with
        | number y => exact .number h
        | _ => cases h
    | empty =>
        cases d' with
        | empty => exact .empty
        | _ => cases h
  · intro h
    induction h with
    | pair _ _ ihh iht => simp [same, ihh, iht]
    | number h => exact h
    | symbol _ | bool _ | str _ | empty => simp [same]

/-- What is read of two values is the same, numbers being compared as numbers. -/
structure ReadSame (d d' : Datum) : Prop where
  toExpr : d.toExpr.same d'.toExpr = true
  toExprs : Expr.allSame d.toExprs d'.toExprs = true
  toBindings : Expr.allBindingsSame d.toBindings d'.toBindings = true

theorem Same.toNames_eq {d d' : Datum} (h : d.Same d') : d.toNames = d'.toNames := by
  induction h with
  | pair hh _ _ iht =>
      cases hh with
      | symbol name => rw [Datum.toNames, iht, Datum.toNames]
      | _ => simp only [Datum.toNames]
  | _ => simp only [Datum.toNames]

/-! A list that is headed by a keyword but too short for it is read as a call, so each of the next
four lemmas asks what the call would be. -/

section Keywords

variable {t t' : Datum} (ht : t.Same t')
  (ih : ∀ {d d' : Datum}, sizeOf d < sizeOf t → d.Same d' → d.ReadSame d')
include ht

theorem toExpr_quote_same
    (hcall : (Expr.app (.var "quote") t.toExprs).same (.app (.var "quote") t'.toExprs) = true) :
    (Datum.pair (.symbol "quote") t).toExpr.same (Datum.pair (.symbol "quote") t').toExpr
      = true := by
  cases ht with
  | pair hd _ =>
      simp only [Datum.toExpr, Expr.same]
      exact same_iff.2 hd
  | _ => simpa [Datum.toExpr] using hcall

include ih

theorem toExpr_if_same
    (hcall : (Expr.app (.var "if") t.toExprs).same (.app (.var "if") t'.toExprs) = true) :
    (Datum.pair (.symbol "if") t).toExpr.same (Datum.pair (.symbol "if") t').toExpr = true := by
  cases ht with
  | pair htest ht =>
      cases ht with
      | pair hyes ht =>
          cases ht with
          | pair hno _ =>
              have htest := ih (by simp only [pair.sizeOf_spec]; omega) htest
              have hyes := ih (by simp only [pair.sizeOf_spec]; omega) hyes
              have hno := ih (by simp only [pair.sizeOf_spec]; omega) hno
              simp only [Datum.toExpr, Expr.same, htest.toExpr, hyes.toExpr, hno.toExpr,
                Bool.and_self]
          | _ => simpa [Datum.toExpr] using hcall
      | _ => simpa [Datum.toExpr] using hcall
  | _ => simpa [Datum.toExpr] using hcall

theorem toExpr_lambda_same
    (hcall : (Expr.app (.var "lambda") t.toExprs).same (.app (.var "lambda") t'.toExprs) = true) :
    (Datum.pair (.symbol "lambda") t).toExpr.same (Datum.pair (.symbol "lambda") t').toExpr
      = true := by
  cases ht with
  | pair hparams hbody =>
      have hbody := ih (by simp only [pair.sizeOf_spec]; omega) hbody
      simp only [Datum.toExpr, Expr.same, hparams.toNames_eq, hbody.toExprs, BEq.rfl, Bool.and_self]
  | _ => simpa [Datum.toExpr] using hcall

theorem toExpr_let_same
    (hcall : (Expr.app (.var "let") t.toExprs).same (.app (.var "let") t'.toExprs) = true) :
    (Datum.pair (.symbol "let") t).toExpr.same (Datum.pair (.symbol "let") t').toExpr = true := by
  cases ht with
  | pair hbindings hbody =>
      have hbindings := ih (by simp only [pair.sizeOf_spec]; omega) hbindings
      have hbody := ih (by simp only [pair.sizeOf_spec]; omega) hbody
      simp only [Datum.toExpr, Expr.same, hbindings.toBindings, hbody.toExprs, Bool.and_self]
  | _ => simpa [Datum.toExpr] using hcall

end Keywords

section Pair

variable {h h' t t' : Datum} (hh : h.Same h') (ht : t.Same t')
  (ih : ∀ {d d' : Datum}, sizeOf d < sizeOf (Datum.pair h t) → d.Same d' → d.ReadSame d')
include hh ht ih

theorem toExpr_pair_same : (Datum.pair h t).toExpr.same (Datum.pair h' t').toExpr = true := by
  have ihh := ih (by simp only [pair.sizeOf_spec]; omega) hh
  have iht := ih (by simp only [pair.sizeOf_spec]; omega) ht
  have hcall : (Expr.app h.toExpr t.toExprs).same (.app h'.toExpr t'.toExprs) = true := by
    simp only [Expr.same, ihh.toExpr, iht.toExprs, Bool.and_self]
  have hinside : ∀ {d d' : Datum}, sizeOf d < sizeOf t → d.Same d' → d.ReadSame d' :=
    fun hlt => ih (by simp only [pair.sizeOf_spec]; omega)
  cases hh with
  | symbol name =>
      by_cases hname : name ∈ keywords
      · simp only [keywords, List.mem_cons, List.not_mem_nil, or_false] at hname
        rcases hname with rfl | rfl | rfl | rfl
        · exact toExpr_if_same ht hinside hcall
        · exact toExpr_lambda_same ht hinside hcall
        · exact toExpr_let_same ht hinside hcall
        · exact toExpr_quote_same ht hcall
      · have hother : ∀ k ∈ keywords, Datum.symbol name ≠ .symbol k := by
          rintro k hk ⟨⟩
          exact hname hk
        rwa [toExpr_pair hother, toExpr_pair hother]
  | _ => simpa only [Datum.toExpr] using hcall

theorem toBindings_pair_same :
    Expr.allBindingsSame (Datum.pair h t).toBindings (Datum.pair h' t').toBindings = true := by
  have iht := ih (by simp only [pair.sizeOf_spec]; omega) ht
  cases hh with
  | pair hname hvalue =>
      cases hname with
      | symbol name =>
          cases hvalue with
          | pair hvalue _ =>
              have hvalue := ih (by simp only [pair.sizeOf_spec]; omega) hvalue
              simp only [Datum.toBindings, Expr.allBindingsSame, hvalue.toExpr, iht.toBindings,
                BEq.rfl, Bool.and_self]
          | _ => simp [Datum.toBindings, Expr.allBindingsSame]
      | _ => simp [Datum.toBindings, Expr.allBindingsSame]
  | _ => simp [Datum.toBindings, Expr.allBindingsSame]

end Pair

/-- **Reading respects the equality of numbers.** -/
theorem Same.readSame {d d' : Datum} (h : d.Same d') : d.ReadSame d' := by
  -- on the size: a bound value is several pairs below the list it is read from
  induction hn : sizeOf d using Nat.strongRecOn generalizing d d' with
  | ind n ih =>
      subst hn
      cases h with
      | pair hh ht =>
          have ih : ∀ {c c' : Datum}, sizeOf c < _ → c.Same c' → c.ReadSame c' :=
            fun hlt hc => ih _ hlt hc rfl
          refine ⟨toExpr_pair_same hh ht ih, ?_, toBindings_pair_same hh ht ih⟩
          have ihh := ih (by simp only [pair.sizeOf_spec]; omega) hh
          have iht := ih (by simp only [pair.sizeOf_spec]; omega) ht
          simp only [Datum.toExprs, Expr.allSame, ihh.toExpr, iht.toExprs, Bool.and_self]
      | number h =>
          refine ⟨?_, ?_, ?_⟩
          · simpa only [Datum.toExpr, Expr.same] using h
          · simp only [Datum.toExprs, Expr.allSame]
          · simp only [Datum.toBindings, Expr.allBindingsSame]
      | empty =>
          refine ⟨?_, ?_, ?_⟩
          · simp only [Datum.toExpr, Expr.same]
            exact same_iff.2 .empty
          · simp only [Datum.toExprs, Expr.allSame]
          · simp only [Datum.toBindings, Expr.allBindingsSame]
      | symbol _ | bool _ | str _ =>
          refine ⟨?_, ?_, ?_⟩
          · simp only [Datum.toExpr, Expr.same, BEq.rfl]
          · simp only [Datum.toExprs, Expr.allSame]
          · simp only [Datum.toBindings, Expr.allBindingsSame]

end Datum

/-! ## The main statement -/

/-- **Quoting loses nothing but the difference between variables and primitive operators.** Take two
expressions that are no quotations themselves and hold no call of a keyword. Their quotations are
equal exactly when the expressions are, up to that difference, and where the quotations are equal
with numbers compared as numbers, so are the expressions. Each expression is what its quotation is
read as, with parameters, bindings and bodies of any length. -/
theorem quoted_code_determines_expression (e₁ e₂ : Expr) {d₁ d₂ : Datum}
    (hcode₁ : ∀ d, e₁ ≠ .literal d) (hcode₂ : ∀ d, e₂ ≠ .literal d)
    (hfree₁ : e₁.KeywordFree) (hfree₂ : e₂.KeywordFree)
    (hquote₁ : e₁.quote = .ok d₁) (hquote₂ : e₂.quote = .ok d₂) :
    (d₁ = d₂ ↔ e₁.primsToVars = e₂.primsToVars)
    ∧ ((d₁ == d₂) = true → (e₁.primsToVars == e₂.primsToVars) = true)
    ∧ d₁.toExpr = e₁.primsToVars := by
  rw [Expr.quote_eq_quoteCode hcode₁] at hquote₁
  rw [Expr.quote_eq_quoteCode hcode₂] at hquote₂
  have hread₁ := Expr.toExpr_of_quoteCode hfree₁ hquote₁
  have hread₂ := Expr.toExpr_of_quoteCode hfree₂ hquote₂
  refine ⟨⟨?_, ?_⟩, ?_, hread₁⟩
  · rintro rfl
    rw [← hread₁, hread₂]
  · intro heq
    have hquote := Expr.quoteCode_primsToVars hquote₁
    rw [heq, Expr.quoteCode_primsToVars hquote₂] at hquote
    exact (Except.ok.inj hquote).symm
  · intro hsame
    rw [← hread₁, ← hread₂]
    exact (Datum.same_iff.1 hsame).readSame.toExpr

/-- A `let` without a body that binds a call on quoted data that looks like code. -/
def letOfCall (operator : Expr) : Expr :=
  .letIn [⟨"if", .app operator [.literal (.ofList [.symbol "if"])]⟩] []

theorem letOfCall_keywordFree (operator : Expr) (hparts : operator.parts = [])
    (hcall : (Expr.app operator [.literal (.ofList [.symbol "if"])]).isKeywordCall = false)
    (hoperator : operator.isKeywordCall = false) : (letOfCall operator).KeywordFree := by
  have hleaf : operator.KeywordFree := Expr.keywordFree_iff.2 ⟨hoperator, by simp [hparts]⟩
  have hliteral (d : Datum) : (Expr.literal d).KeywordFree :=
    Expr.keywordFree_iff.2 ⟨rfl, by simp [Expr.parts]⟩
  refine Expr.keywordFree_iff.2 ⟨rfl, List.forall_mem_singleton.2 (Expr.keywordFree_iff.2 ?_)⟩
  exact ⟨hcall, List.forall_mem_cons.2 ⟨hleaf, List.forall_mem_singleton.2 (hliteral _)⟩⟩

/-- The operator of the call may be a primitive operator or a variable. -/
theorem quoted_code_determines_expression_operator :
    ∃ d : Datum,
      (letOfCall (.prim "car")).quote = .ok d
      ∧ (letOfCall (.var "car")).quote = .ok d
      ∧ d.toExpr = letOfCall (.var "car") := by
  have hprim := letOfCall_keywordFree (.prim "car") rfl rfl rfl
  have hvar := letOfCall_keywordFree (.var "car") rfl rfl rfl
  exact ⟨_, rfl, rfl, (quoted_code_determines_expression (letOfCall (.prim "car"))
    (letOfCall (.var "car")) (by simp [letOfCall]) (by simp [letOfCall]) hprim hvar rfl rfl).2.2⟩

end L32
