import L32.Proofs.Elimination

set_option autoImplicit false

/-! # Which expressions can be quoted

`Expr.encode` takes the constants, which are the atomic literals and quoted data; `Expr.quote`
takes every expression without a dictionary literal. An expression that holds dictionary literals is
refused because of one of them: `Expr.firstDict?` is the first on a walk from the root down and from
left to right, and `error?_quoteCode` says that it is the one. The main statement is
`quoting_stops_at_first_dict`.

Constants and keys are also read on the expression as it was written, before its dictionary literals
were replaced: desugaring gives a constant only for that same constant
(`encode_eq_ok_iff_of_desugar`), and likewise a key only for that same key
(`keyName_eq_ok_iff_of_desugar`). -/

namespace L32

/-- The symbols that quoting puts in front of code. -/
def keywords : List String := ["if", "lambda", "let", "quote"]

namespace Expr

/-- Whether the expression is a number, a truth value, a string or quoted data. -/
def isConstant : Expr → Bool
  | number _ | bool _ | str _ | literal _ => true
  | _ => false

/-- Whether the expression is a variable or a quoted symbol. -/
def isKey : Expr → Bool
  | var _ | literal (.symbol _) => true
  | _ => false

theorem exists_encode_iff (e : Expr) : (∃ d, e.encode = .ok d) ↔ e.isConstant = true := by
  cases e <;> simp [encode, isConstant]

theorem keyName_eq_ok_iff {e : Expr} {name : String} :
    e.keyName = .ok name ↔ e = .var name ∨ e = .literal (.symbol name) := by
  unfold keyName
  split <;> simp_all

theorem exists_keyName_iff (e : Expr) : (∃ name, e.keyName = .ok name) ↔ e.isKey = true := by
  unfold keyName isKey
  split <;> simp_all

/-! ## Quoting code -/

theorem quoteCodes_inOrder : InOrder quoteCode quoteCodes :=
  ⟨rfl, fun _ _ => rfl⟩

theorem quoteBindings_inOrder :
    InOrder (fun b => b.value.quoteCode.map fun d => .ofList [.symbol b.name, d])
      quoteBindings := by
  refine ⟨rfl, fun b bs => ?_⟩
  rw [quoteBindings]
  cases b.value.quoteCode <;> rfl

theorem error?_quoteBindings (bs : List (Binding Expr)) :
    error? (quoteBindings bs)
      = (bs.map Binding.value).findSome? fun e => error? e.quoteCode := by
  rw [quoteBindings_inOrder.error?_eq, List.findSome?_map]
  congr 1
  funext b
  show error? (b.value.quoteCode.map _) = error? b.value.quoteCode
  cases b.value.quoteCode <;> rfl

/-! ## The first dictionary literal -/

mutual

/-- The first dictionary literal on a walk through the expression, from the root down and from left
to right. The walk does not go into a dictionary literal. -/
def firstDict? : Expr → Option Expr
  | .number _ | .bool _ | .str _ | .var _ | .prim _ | .literal _ => none
  | .cond test yes no => test.firstDict?.or (yes.firstDict?.or no.firstDict?)
  | .lambda _ body => firstDictIn? body
  | .app operator operands => operator.firstDict?.or (firstDictIn? operands)
  | .letIn bindings body => (firstDictInBindings? bindings).or (firstDictIn? body)
  | .dict entries => some (.dict entries)

def firstDictIn? : List Expr → Option Expr
  | [] => none
  | e :: es => e.firstDict?.or (firstDictIn? es)

def firstDictInBindings? : List (Binding Expr) → Option Expr
  | [] => none
  | ⟨_, e⟩ :: bs => e.firstDict?.or (firstDictInBindings? bs)

end

theorem firstDictIn?_eq_findSome? (es : List Expr) :
    firstDictIn? es = es.findSome? firstDict? := by
  induction es with
  | nil => rfl
  | cons e es ih => rw [firstDictIn?, ih, findSome?_cons_eq_or]

theorem firstDictInBindings?_eq_findSome? (bs : List (Binding Expr)) :
    firstDictInBindings? bs = (bs.map Binding.value).findSome? firstDict? := by
  induction bs with
  | nil => rfl
  | cons b bs ih => rw [firstDictInBindings?, ih, List.map_cons, findSome?_cons_eq_or]

/-! The walk, the question whether there is a dictionary literal, and quoting are three functions of
their own. The next three lemmas say that they go through the same parts, and two of them in the
same order. -/

theorem firstDict?_eq_parts {e : Expr} (h : e.isDict = false) :
    e.firstDict? = e.parts.findSome? firstDict? := by
  cases e with
  | number _ | bool _ | str _ | var _ | prim _ | literal _ => rfl
  | cond test yes no =>
      simp only [firstDict?, parts, findSome?_cons_eq_or, List.findSome?_nil, Option.or_none]
  | lambda params body => rw [firstDict?, parts, firstDictIn?_eq_findSome?]
  | app operator operands =>
      rw [firstDict?, parts, findSome?_cons_eq_or, firstDictIn?_eq_findSome?]
  | letIn bindings body =>
      rw [firstDict?, parts, List.findSome?_append, firstDictInBindings?_eq_findSome?,
        firstDictIn?_eq_findSome?]
  | dict entries => cases h

theorem error?_quoteCode_eq_parts {e : Expr} (h : e.isDict = false) :
    error? e.quoteCode = e.parts.findSome? fun c => error? c.quoteCode := by
  cases e with
  | number _ | bool _ | str _ | var _ | prim _ | literal _ => rfl
  | cond test yes no =>
      rw [quoteCode, parts, error?_bind fun t _ => error?_bind fun y _ => error?_bind_ok _ _]
      simp only [findSome?_cons_eq_or, List.findSome?_nil, Option.or_none]
  | lambda params body =>
      rw [quoteCode, error?_bind_ok, quoteCodes_inOrder.error?_eq, parts]
  | app operator operands =>
      rw [quoteCode, parts, error?_bind fun d _ => error?_bind_ok _ _, quoteCodes_inOrder.error?_eq,
        findSome?_cons_eq_or]
  | letIn bindings body =>
      rw [quoteCode, parts, error?_bind fun bs _ => error?_bind_ok _ _, error?_quoteBindings,
        quoteCodes_inOrder.error?_eq, List.findSome?_append]
  | dict entries => cases h

/-- Induction over the parts, in the case of a dictionary literal without them. -/
@[elab_as_elim]
theorem outer_induction {motive : Expr → Prop} (dict : ∀ entries, motive (.dict entries))
    (step : ∀ e, e.isDict = false → (∀ c ∈ e.parts, motive c) → motive e) (e : Expr) :
    motive e := by
  induction e using Expr.parts_induction with
  | step e ih =>
      cases hdict : e.isDict with
      | false => exact step e hdict ih
      | true =>
          cases e with
          | dict entries => exact dict entries
          | _ => cases hdict

/-- What the walk finds is a dictionary literal. -/
theorem exists_eq_dict_of_firstDict? {e d : Expr} (h : e.firstDict? = some d) :
    ∃ entries, d = .dict entries := by
  induction e using outer_induction with
  | dict entries =>
      cases h
      exact ⟨entries, rfl⟩
  | step e hdict ih =>
      rw [firstDict?_eq_parts hdict] at h
      obtain ⟨c, hc, hfound⟩ := List.exists_of_findSome?_eq_some h
      exact ih c hc hfound

/-- The walk finds nothing exactly if there is nothing to find. -/
theorem firstDict?_eq_none_iff (e : Expr) : e.firstDict? = none ↔ e.hasDict = false := by
  induction e using outer_induction with
  | dict entries => simp [firstDict?, hasDict]
  | step e hdict ih =>
      rw [firstDict?_eq_parts hdict, hasDict_eq_parts hdict, List.findSome?_eq_none_iff,
        List.any_eq_false]
      apply forall₂_congr
      intro c hc
      rw [ih c hc, Bool.not_eq_true]

/-- **Quoting code reports the first dictionary literal on the walk.** -/
theorem error?_quoteCode (e : Expr) :
    error? e.quoteCode = e.firstDict?.map fun d => .nonLiteralValue d.toScheme := by
  induction e using outer_induction with
  | dict entries => rfl
  | step e hdict ih =>
      rw [error?_quoteCode_eq_parts hdict, firstDict?_eq_parts hdict, List.map_findSome?]
      exact findSome?_congr_of_mem ih

theorem quote_eq_quoteCode {e : Expr} (h : ∀ d, e ≠ .literal d) : e.quote = e.quoteCode := by
  cases e with
  | literal d => exact absurd rfl (h d)
  | _ => rfl

/-- Quoted data that is the whole expression is no error either, so quoting reports what quoting
code does. -/
theorem error?_quote (e : Expr) : error? e.quote = error? e.quoteCode := by
  cases e <;> rfl

theorem exists_quote_iff (e : Expr) : (∃ d, e.quote = .ok d) ↔ e.hasDict = false := by
  rw [← error?_eq_none_iff, error?_quote, error?_quoteCode, Option.map_eq_none_iff,
    firstDict?_eq_none_iff]

end Expr

/-- **Quoting succeeds exactly on the expressions without a dictionary literal**, and is otherwise
refused because of the first one on a walk from the root down and from left to right, with its
text. -/
theorem quoting_stops_at_first_dict (e : Expr) :
    ((∃ d, e.quote = .ok d) ↔ e.hasDict = false)
    ∧ ∀ err, e.quote = .error err ↔
        ∃ entries, e.firstDict? = some (.dict entries)
          ∧ err = .nonLiteralValue (Expr.dict entries).toScheme := by
  refine ⟨Expr.exists_quote_iff e, fun err => ?_⟩
  rw [← error?_eq_some_iff, Expr.error?_quote, Expr.error?_quoteCode, Option.map_eq_some_iff]
  constructor
  · rintro ⟨d, hd, rfl⟩
    obtain ⟨entries, rfl⟩ := Expr.exists_eq_dict_of_firstDict? hd
    exact ⟨entries, hd, rfl⟩
  · rintro ⟨entries, hd, rfl⟩
    exact ⟨.dict entries, hd, rfl⟩

/-- A bound value counts before the body, and a literal before those inside it. -/
example :
    (Expr.letIn [⟨"x", .lambda [] [.dict [⟨.var "a", .dict []⟩]]⟩] [.dict []]).firstDict?
      = some (.dict [⟨.var "a", .dict []⟩]) := rfl

/-! ## Constants and keys before desugaring -/

/-- What desugars to a leaf was that leaf: a dictionary literal becomes a call, and every other
construct keeps its kind. -/
theorem eq_of_desugar_of_isLeaf {policy : ValuePolicy} {e e' : Expr}
    (h : e.desugar policy = .ok e') (he : e'.isLeaf = true) : e = e' := by
  cases hd : e.isDict with
  | false =>
      cases (desugar_eq_ok_iff_congruent hd).1 h with
      | leaf _ => rfl
      | cond _ _ _ | lambda _ _ | app _ _ | letIn _ _ => cases he
  | true =>
      cases e with
      | dict entries =>
          obtain ⟨entries', _, hcall⟩ := desugar_dict_eq_ok_iff.1 h
          obtain ⟨ds, _, rfl⟩ := lookupCall_eq_ok_iff.1 hcall
          cases he
      | _ => cases hd

/-- What reads leaves only reads the same before and after desugaring. -/
theorem ok_iff_of_desugar {policy : ValuePolicy} {ε α : Type} {read : Expr → Except ε α} {a : α}
    (hread : ∀ c, read c = .ok a → c.isLeaf = true) {e e' : Expr}
    (h : e.desugar policy = .ok e') : read e' = .ok a ↔ read e = .ok a := by
  constructor
  · intro he
    rw [eq_of_desugar_of_isLeaf h (hread _ he)]
    exact he
  · intro he
    rw [desugar_of_isLeaf (hread _ he)] at h
    cases h
    exact he

theorem encode_eq_ok_iff_of_desugar {policy : ValuePolicy} {e e' : Expr} {d : Datum}
    (h : e.desugar policy = .ok e') : e'.encode = .ok d ↔ e.encode = .ok d := by
  refine ok_iff_of_desugar (fun c hc => ?_) h
  cases c <;> simp_all [Expr.encode, Expr.isLeaf]

theorem keyName_eq_ok_iff_of_desugar {policy : ValuePolicy} {e e' : Expr} {name : String}
    (h : e.desugar policy = .ok e') : e'.keyName = .ok name ↔ e.keyName = .ok name := by
  refine ok_iff_of_desugar (fun c hc => ?_) h
  cases c <;> simp_all [Expr.keyName, Expr.isLeaf]

end L32
