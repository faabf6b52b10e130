import L32.Expr
import Mathlib.Data.List.Forall2

set_option autoImplicit false

/-! # Expressions as trees

Tools for statements about all expressions.

* `Expr.parts`: the expressions that stand directly inside an expression, from left to right.
  `Expr.parts_induction` is the induction over parts, and `Expr.induction` the same construct by
  construct. Parts that stand in lists (bodies, operands, bound values, keys and values) are
  reached through membership, so that no statement has to be doubled for lists.
* `Expr.Congruent R`: two expressions are the same construct and `R` relates their parts, one by
  one. Dictionary literals are left out: they have no congruent partner. `Form.Related R` is the
  same for forms.
* `Expr.dictNodes`: the dictionary literals of an expression at any depth, the parts of a node
  before the node and from left to right.

The functions over lists of expressions that go with `Expr.hasDict` and `Expr.dictNodes` are
`List.any` and `List.flatMap` of these. -/

namespace L32

/-! ## Parts and induction -/

def Entry.parts (x : Entry Expr) : List Expr :=
  [x.key, x.value]

/-- The expressions directly inside an expression, from left to right. -/
def Expr.parts : Expr → List Expr
  | .number _ | .bool _ | .str _ | .var _ | .prim _ | .literal _ => []
  | .cond test yes no => [test, yes, no]
  | .lambda _ body => body
  | .app operator operands => operator :: operands
  | .letIn bindings body => bindings.map Binding.value ++ body
  | .dict entries => entries.flatMap Entry.parts

theorem Expr.sizeOf_lt_of_mem_parts {c e : Expr} (h : c ∈ e.parts) : sizeOf c < sizeOf e := by
  cases e with
  | number _ | bool _ | str _ | var _ | prim _ | literal _ => cases h
  | cond test yes no =>
      simp only [parts, List.mem_cons, List.not_mem_nil, or_false] at h
      rcases h with rfl | rfl | rfl <;> simp <;> omega
  | lambda params body =>
      have : sizeOf c < sizeOf body := List.sizeOf_lt_of_mem h
      simp; omega
  | app operator operands =>
      rcases List.mem_cons.1 h with rfl | h
      · simp; omega
      · have := List.sizeOf_lt_of_mem h
        simp; omega
  | letIn bindings body =>
      rcases List.mem_append.1 h with h | h
      · -- a bound value is two steps down: the binding is in the list, the value in the binding
        obtain ⟨b, hb, rfl⟩ := List.mem_map.1 h
        have hlt := List.sizeOf_lt_of_mem hb
        have hsize : sizeOf b = 1 + sizeOf b.name + sizeOf b.value := rfl
        simp; omega
      · have := List.sizeOf_lt_of_mem h
        simp; omega
  | dict entries =>
      obtain ⟨x, hx, hc⟩ := List.mem_flatMap.1 h
      have hlt := List.sizeOf_lt_of_mem hx
      have hsize : sizeOf x = 1 + sizeOf x.key + sizeOf x.value := rfl
      simp only [Entry.parts, List.mem_cons, List.not_mem_nil, or_false] at hc
      rcases hc with rfl | rfl <;> simp <;> omega

/-- **Induction over the parts** of an expression. -/
@[elab_as_elim]
theorem Expr.parts_induction {motive : Expr → Prop}
    (step : ∀ e, (∀ c ∈ e.parts, motive c) → motive e) (e : Expr) : motive e := by
  -- on the size: structural recursion does not see through the lists of bindings and entries
  induction hn : sizeOf e using Nat.strongRecOn generalizing e with
  | ind n ih =>
      subst hn
      exact step e fun c hc => ih _ (sizeOf_lt_of_mem_parts hc) c rfl

/-- **Induction over expressions**, with the constructs that have no parts taken together. -/
@[elab_as_elim]
theorem Expr.induction {motive : Expr → Prop}
    (leaf : ∀ e, e.isLeaf = true → motive e)
    (cond : ∀ test yes no, motive test → motive yes → motive no → motive (.cond test yes no))
    (lambda : ∀ params body, (∀ e ∈ body, motive e) → motive (.lambda params body))
    (app : ∀ operator operands, motive operator → (∀ e ∈ operands, motive e) →
      motive (.app operator operands))
    (letIn : ∀ bindings body, (∀ b ∈ bindings, motive b.value) → (∀ e ∈ body, motive e) →
      motive (.letIn bindings body))
    (dict : ∀ entries, (∀ x ∈ entries, motive x.key ∧ motive x.value) → motive (.dict entries))
    (e : Expr) : motive e := by
  induction e using Expr.parts_induction with
  | step e ih =>
      cases e with
      | number _ | bool _ | str _ | var _ | prim _ | literal _ => exact leaf _ rfl
      | cond test yes no =>
          exact cond _ _ _ (ih _ (by simp [parts])) (ih _ (by simp [parts]))
            (ih _ (by simp [parts]))
      | lambda params body => exact lambda _ _ ih
      | app operator operands =>
          exact app _ _ (ih _ (by simp [parts])) fun e he => ih _ (by simp [parts, he])
      | letIn bindings body =>
          refine letIn _ _ (fun b hb => ih _ ?_) fun e he => ih _ (by simp [parts, he])
          exact List.mem_append_left _ (List.mem_map_of_mem hb)
      | dict entries =>
          refine dict _ fun x hx => ⟨ih _ ?_, ih _ ?_⟩
          · exact List.mem_flatMap.2 ⟨x, hx, by simp [Entry.parts]⟩
          · exact List.mem_flatMap.2 ⟨x, hx, by simp [Entry.parts]⟩

/-! ## Congruence -/

/-- `R` relates the bound values, and the names are the same. -/
structure Binding.Related (R : Expr → Expr → Prop) (b b' : Binding Expr) : Prop where
  name : b.name = b'.name
  value : R b.value b'.value

structure Entry.Related (R : Expr → Expr → Prop) (x x' : Entry Expr) : Prop where
  key : R x.key x'.key
  value : R x.value x'.value

/-- The same construct with the same names and constants, and with parts that `R` relates. -/
inductive Expr.Congruent (R : Expr → Expr → Prop) : Expr → Expr → Prop
  | leaf {e : Expr} (h : e.isLeaf = true) : Congruent R e e
  | cond {test test' yes yes' no no' : Expr} (ht : R test test') (hy : R yes yes') (hn : R no no') :
      Congruent R (.cond test yes no) (.cond test' yes' no')
  | lambda (params : List String) {body body' : List Expr} (hb : List.Forall₂ R body body') :
      Congruent R (.lambda params body) (.lambda params body')
  | app {operator operator' : Expr} {operands operands' : List Expr} (hf : R operator operator')
      (ha : List.Forall₂ R operands operands') :
      Congruent R (.app operator operands) (.app operator' operands')
  | letIn {bindings bindings' : List (Binding Expr)} {body body' : List Expr}
      (hd : List.Forall₂ (Binding.Related R) bindings bindings')
      (hb : List.Forall₂ R body body') :
      Congruent R (.letIn bindings body) (.letIn bindings' body')

inductive Form.Related (R : Expr → Expr → Prop) : Form → Form → Prop
  | define (name : String) {e e' : Expr} (h : R e e') :
      Form.Related R (.define name e) (.define name e')
  | expr {e e' : Expr} (h : R e e') : Form.Related R (.expr e) (.expr e')

theorem Form.Related.expression {R : Expr → Expr → Prop} {f f' : Form} (h : f.Related R f') :
    R f.expression f'.expression := by
  cases h with
  | define _ h => exact h
  | expr h => exact h

/-- A relation between lists may be weakened at the members of the first. -/
theorem forall₂_imp_of_mem {α β : Type} {R S : α → β → Prop} {as : List α} {bs : List β}
    (h : ∀ a ∈ as, ∀ b, R a b → S a b) (hR : List.Forall₂ R as bs) : List.Forall₂ S as bs := by
  induction hR with
  | nil => exact .nil
  | cons hab _ ih =>
      exact .cons (h _ (by simp) _ hab) (ih fun a ha => h a (by simp [ha]))

/-- In related lists, each member of the second is related to one of the first. -/
theorem exists_mem_left_of_forall₂ {α β : Type} {R : α → β → Prop} {as : List α} {bs : List β}
    (h : List.Forall₂ R as bs) {b : β} (hb : b ∈ bs) : ∃ a ∈ as, R a b := by
  induction h with
  | nil => cases hb
  | cons hab _ ih =>
      rcases List.mem_cons.1 hb with rfl | hb
      · exact ⟨_, by simp, hab⟩
      · obtain ⟨a, ha, hR⟩ := ih hb
        exact ⟨a, by simp [ha], hR⟩

/-- An expression that is no dictionary literal is congruent to itself, if `R` relates its parts to
themselves. -/
theorem Expr.Congruent.refl {R : Expr → Expr → Prop} {e : Expr} (hR : ∀ c ∈ e.parts, R c c)
    (he : e.isDict = false) : e.Congruent R e := by
  cases e with
  | number _ | bool _ | str _ | var _ | prim _ | literal _ => exact .leaf rfl
  | cond test yes no =>
      exact .cond (hR _ (by simp [parts])) (hR _ (by simp [parts])) (hR _ (by simp [parts]))
  | lambda params body => exact .lambda params (List.forall₂_same.2 hR)
  | app operator operands =>
      obtain ⟨hf, ha⟩ := List.forall_mem_cons.1 hR
      exact .app hf (List.forall₂_same.2 ha)
  | letIn bindings body =>
      obtain ⟨hd, hb⟩ := List.forall_mem_append.1 hR
      refine .letIn (List.forall₂_same.2 fun b hmem => ⟨rfl, ?_⟩) (List.forall₂_same.2 hb)
      exact hd _ (List.mem_map_of_mem hmem)
  | dict entries => cases he

/-! ## Where dictionary literals occur -/

namespace Expr

theorem hasDict_of_isLeaf {e : Expr} (h : e.isLeaf = true) : e.hasDict = false := by
  cases e <;> simp_all [isLeaf, hasDict]

theorem anyHasDict_eq_any (es : List Expr) : anyHasDict es = es.any hasDict := by
  induction es with
  | nil => rfl
  | cons e es ih => simp [anyHasDict, ih]

theorem anyBindingHasDict_eq_any (bs : List (Binding Expr)) :
    anyBindingHasDict bs = bs.any fun b => b.value.hasDict := by
  induction bs with
  | nil => rfl
  | cons b bs ih => simp [anyBindingHasDict, ih]

@[simp] theorem anyHasDict_eq_false_iff (es : List Expr) :
    anyHasDict es = false ↔ ∀ e ∈ es, e.hasDict = false := by
  simp [anyHasDict_eq_any]

@[simp] theorem anyBindingHasDict_eq_false_iff (bs : List (Binding Expr)) :
    anyBindingHasDict bs = false ↔ ∀ b ∈ bs, b.value.hasDict = false := by
  simp [anyBindingHasDict_eq_any]

theorem hasDict_eq_parts {e : Expr} (h : e.isDict = false) :
    e.hasDict = e.parts.any hasDict := by
  cases e with
  | number _ | bool _ | str _ | var _ | prim _ | literal _ => rfl
  | cond test yes no => simp [hasDict, parts, Bool.or_assoc]
  | lambda params body => rw [hasDict, parts, anyHasDict_eq_any]
  | app operator operands => rw [hasDict, parts, List.any_cons, anyHasDict_eq_any]
  | letIn bindings body =>
      rw [hasDict, parts, List.any_append, List.any_map, anyBindingHasDict_eq_any,
        anyHasDict_eq_any]
      rfl
  | dict entries => cases h

mutual

/-- The dictionary literals in the expression, each given by its entries. A literal comes after
those in its own keys and values. -/
def dictNodes : Expr → List (List (Entry Expr))
  | .number _ | .bool _ | .str _ | .var _ | .prim _ | .literal _ => []
  | .cond test yes no => test.dictNodes ++ yes.dictNodes ++ no.dictNodes
  | .lambda _ body => dictNodesIn body
  | .app operator operands => operator.dictNodes ++ dictNodesIn operands
  | .letIn bindings body => dictNodesInBindings bindings ++ dictNodesIn body
  | .dict entries => dictNodesInEntries entries ++ [entries]

def dictNodesIn : List Expr → List (List (Entry Expr))
  | [] => []
  | e :: es => e.dictNodes ++ dictNodesIn es

def dictNodesInBindings : List (Binding Expr) → List (List (Entry Expr))
  | [] => []
  | ⟨_, e⟩ :: bs => e.dictNodes ++ dictNodesInBindings bs

def dictNodesInEntries : List (Entry Expr) → List (List (Entry Expr))
  | [] => []
  | ⟨k, e⟩ :: es => k.dictNodes ++ e.dictNodes ++ dictNodesInEntries es

end

theorem dictNodesIn_eq_flatMap (es : List Expr) : dictNodesIn es = es.flatMap dictNodes := by
  induction es with
  | nil => rfl
  | cons e es ih => simp [dictNodesIn, ih]

theorem dictNodesInBindings_eq_flatMap (bs : List (Binding Expr)) :
    dictNodesInBindings bs = (bs.map Binding.value).flatMap dictNodes := by
  induction bs with
  | nil => rfl
  | cons b bs ih => simp [dictNodesInBindings, ih]

theorem dictNodesInEntries_eq_flatMap (xs : List (Entry Expr)) :
    dictNodesInEntries xs = (xs.flatMap Entry.parts).flatMap dictNodes := by
  induction xs with
  | nil => rfl
  | cons x xs ih => simp [dictNodesInEntries, Entry.parts, ih]

/-- The expression as a dictionary literal of its own, if it is one. -/
def ownNode : Expr → List (List (Entry Expr))
  | .dict entries => [entries]
  | _ => []

/-- The dictionary literals of an expression are those of its parts and then, if it is one, the
expression itself. -/
theorem dictNodes_eq_parts (e : Expr) :
    e.dictNodes = e.parts.flatMap dictNodes ++ e.ownNode := by
  cases e with
  | number _ | bool _ | str _ | var _ | prim _ | literal _ => rfl
  | cond test yes no => simp [dictNodes, parts, ownNode]
  | lambda params body => simp [dictNodes, parts, ownNode, dictNodesIn_eq_flatMap]
  | app operator operands => simp [dictNodes, parts, ownNode, dictNodesIn_eq_flatMap]
  | letIn bindings body =>
      simp only [dictNodes, parts, ownNode, dictNodesIn_eq_flatMap, dictNodesInBindings_eq_flatMap,
        List.flatMap_append, List.append_nil]
  | dict entries => simp only [dictNodes, parts, ownNode, dictNodesInEntries_eq_flatMap]

/-- The first expression is the second, or stands somewhere inside it. -/
inductive Occurs (d : Expr) : Expr → Prop
  | here : Occurs d d
  | inside {c e : Expr} (hc : c ∈ e.parts) (h : Occurs d c) : Occurs d e

/-- What holds of everything that occurs holds of the expression and of what occurs in its parts. -/
theorem forall_occurs_iff {Q : Expr → Prop} {e : Expr} :
    (∀ c, Occurs c e → Q c) ↔ Q e ∧ ∀ c ∈ e.parts, ∀ d, Occurs d c → Q d := by
  constructor
  · intro h
    exact ⟨h e .here, fun c hc d hd => h d (.inside hc hd)⟩
  · rintro ⟨hown, hparts⟩ c hc
    cases hc with
    | here => exact hown
    | inside hmem hocc => exact hparts _ hmem c hocc

/-- The list of dictionary literals is complete: it holds those that occur and no others. -/
theorem mem_dictNodes_iff {entries : List (Entry Expr)} {e : Expr} :
    entries ∈ e.dictNodes ↔ (Expr.dict entries).Occurs e := by
  induction e using Expr.parts_induction with
  | step e ih =>
      rw [dictNodes_eq_parts, List.mem_append, List.mem_flatMap]
      constructor
      · rintro (⟨c, hc, hmem⟩ | hown)
        · exact .inside hc ((ih c hc).1 hmem)
        · cases e with
          | dict entries' =>
              simp only [ownNode, List.mem_singleton] at hown
              subst hown
              exact .here
          | _ => cases hown
      · intro h
        cases h with
        | here => exact Or.inr (by simp [ownNode])
        | inside hc h => exact Or.inl ⟨_, hc, (ih _ hc).2 h⟩

end Expr

end L32
