import L32.Proofs.Policies

set_option autoImplicit false

/-! # What a desugared program is made of

The atoms of a program are its names and its constants. Desugaring moves them: a key becomes a
symbol, and under the structural policy code becomes data. It makes none but the names that it
writes itself, which are the keywords in front of quoted code and the names in the definition of the
lookup procedure (`addedNames`).

So what holds of all atoms of a program, and of those names, holds of all atoms of the desugared
program. `allAtoms_of_desugar` says so for an expression, `Program.allAtoms_of_desugar` for a
program. -/

namespace L32

variable {P : Datum → Prop}

/-! ## Data -/

namespace Datum

/-- The symbols, numbers, truth values and strings in a value. -/
def atoms : Datum → List Datum
  | .pair h t => h.atoms ++ t.atoms
  | .empty => []
  | d => [d]

/-- All atoms in it satisfy `P`. -/
def AllAtoms (P : Datum → Prop) (d : Datum) : Prop :=
  ∀ a ∈ d.atoms, P a

theorem allAtoms_pair {h t : Datum} :
    (Datum.pair h t).AllAtoms P ↔ h.AllAtoms P ∧ t.AllAtoms P :=
  List.forall_mem_append

theorem allAtoms_symbol {name : String} : (Datum.symbol name).AllAtoms P ↔ P (.symbol name) :=
  List.forall_mem_singleton

theorem ofList_cons (d : Datum) (ds : List Datum) : ofList (d :: ds) = .pair d (ofList ds) := rfl

theorem allAtoms_ofList {ds : List Datum} : (ofList ds).AllAtoms P ↔ ∀ d ∈ ds, d.AllAtoms P := by
  induction ds with
  | nil => simp [ofList, chain, AllAtoms, atoms]
  | cons d ds ih => simp [ofList_cons, allAtoms_pair, ih]

theorem allAtoms_headed {keyword : String} {ds : List Datum} :
    (headed keyword ds).AllAtoms P ↔ P (.symbol keyword) ∧ ∀ d ∈ ds, d.AllAtoms P := by
  rw [headed, allAtoms_ofList, List.forall_mem_cons, allAtoms_symbol]

end Datum

/-! ## Expressions, forms and programs -/

namespace Expr

/-- The atoms that stand in an expression itself, and not in its parts. A name counts as the symbol
of that name. -/
def ownAtoms : Expr → List Datum
  | .number x => [.number x]
  | .bool b => [.bool b]
  | .str s => [.str s]
  | .var name | .prim name => [.symbol name]
  | .literal d => d.atoms
  | .lambda params _ => params.map .symbol
  | .letIn bindings _ => bindings.map fun b => .symbol b.name
  | .cond _ _ _ | .app _ _ | .dict _ => []

/-- All atoms in it, at any depth, satisfy `P`. -/
def AllAtoms (P : Datum → Prop) (e : Expr) : Prop :=
  ∀ c : Expr, c.Occurs e → ∀ a ∈ c.ownAtoms, P a

theorem allAtoms_iff {e : Expr} :
    e.AllAtoms P ↔ (∀ a ∈ e.ownAtoms, P a) ∧ ∀ c ∈ e.parts, c.AllAtoms P :=
  forall_occurs_iff

theorem AllAtoms.of_mem_parts {c e : Expr} (h : e.AllAtoms P) (hc : c ∈ e.parts) : c.AllAtoms P :=
  (allAtoms_iff.1 h).2 c hc

/-! For each construct: its own atoms, and those of its parts. -/

@[simp] theorem allAtoms_number {x : Float} : (number x).AllAtoms P ↔ P (.number x) := by
  rw [allAtoms_iff]
  simp [ownAtoms, parts]

@[simp] theorem allAtoms_bool {b : Bool} : (bool b).AllAtoms P ↔ P (.bool b) := by
  rw [allAtoms_iff]
  simp [ownAtoms, parts]

@[simp] theorem allAtoms_str {s : String} : (str s).AllAtoms P ↔ P (.str s) := by
  rw [allAtoms_iff]
  simp [ownAtoms, parts]

@[simp] theorem allAtoms_var {name : String} : (var name).AllAtoms P ↔ P (.symbol name) := by
  rw [allAtoms_iff]
  simp [ownAtoms, parts]

@[simp] theorem allAtoms_prim {name : String} : (prim name).AllAtoms P ↔ P (.symbol name) := by
  rw [allAtoms_iff]
  simp [ownAtoms, parts]

@[simp] theorem allAtoms_literal {d : Datum} : (literal d).AllAtoms P ↔ d.AllAtoms P := by
  rw [allAtoms_iff]
  simp [ownAtoms, parts, Datum.AllAtoms]

@[simp] theorem allAtoms_cond {test yes no : Expr} :
    (cond test yes no).AllAtoms P ↔ test.AllAtoms P ∧ yes.AllAtoms P ∧ no.AllAtoms P := by
  rw [allAtoms_iff]
  simp [ownAtoms, parts]

@[simp] theorem allAtoms_lambda {params : List String} {body : List Expr} :
    (lambda params body).AllAtoms P ↔
      (∀ name ∈ params, P (.symbol name)) ∧ ∀ e ∈ body, e.AllAtoms P := by
  rw [allAtoms_iff]
  simp [ownAtoms, parts]

@[simp] theorem allAtoms_app {operator : Expr} {operands : List Expr} :
    (app operator operands).AllAtoms P ↔ operator.AllAtoms P ∧ ∀ e ∈ operands, e.AllAtoms P := by
  rw [allAtoms_iff]
  simp [ownAtoms, parts]

@[simp] theorem allAtoms_letIn {bindings : List (Binding Expr)} {body : List Expr} :
    (letIn bindings body).AllAtoms P ↔
      (∀ b ∈ bindings, P (.symbol b.name) ∧ b.value.AllAtoms P) ∧ ∀ e ∈ body, e.AllAtoms P := by
  rw [allAtoms_iff]
  simp [ownAtoms, parts, or_imp, forall_and, and_assoc]

@[simp] theorem allAtoms_dict {entries : List (Entry Expr)} :
    (dict entries).AllAtoms P ↔ ∀ x ∈ entries, x.key.AllAtoms P ∧ x.value.AllAtoms P := by
  rw [allAtoms_iff, parts, List.forall_mem_flatMap]
  simp [ownAtoms, Entry.parts]

theorem parts_of_isLeaf {e : Expr} (h : e.isLeaf = true) : e.parts = [] := by
  cases e <;> simp_all [isLeaf, parts]

/-- The parts of congruent expressions are related one by one. -/
theorem Congruent.parts {R : Expr → Expr → Prop} {e e' : Expr} (h : e.Congruent R e') :
    List.Forall₂ R e.parts e'.parts := by
  cases h with
  | leaf h =>
      rw [parts_of_isLeaf h]
      exact .nil
  | cond ht hy hn => exact .cons ht (.cons hy (.cons hn .nil))
  | lambda params hb => exact hb
  | app hf ha => exact .cons hf ha
  | letIn hd hb =>
      refine List.rel_append ?_ hb
      rw [List.forall₂_map_left_iff, List.forall₂_map_right_iff]
      exact hd.imp fun _ _ h => h.value

/-- Congruent expressions have the same atoms of their own. -/
theorem Congruent.ownAtoms_eq {R : Expr → Expr → Prop} {e e' : Expr} (h : e.Congruent R e') :
    e'.ownAtoms = e.ownAtoms := by
  cases h with
  | leaf | cond | lambda | app => rfl
  | letIn hd _ =>
      simp only [ownAtoms]
      induction hd with
      | nil => rfl
      | cons hb _ ih => rw [List.map_cons, List.map_cons, hb.name, ih]

end Expr

/-- All atoms in it satisfy `P`, with the name that it defines. -/
def Form.AllAtoms (P : Datum → Prop) : Form → Prop
  | .define name value => P (.symbol name) ∧ value.AllAtoms P
  | .expr value => value.AllAtoms P

def Program.AllAtoms (P : Datum → Prop) (p : Program) : Prop :=
  ∀ f ∈ p.forms, f.AllAtoms P

/-- The atom is a name that satisfies `P`, or no name at all. -/
def Datum.Named (P : String → Prop) : Datum → Prop
  | .symbol name => P name
  | _ => True

/-- All names in it satisfy `P`: the names that are defined or bound, parameters, variables,
operators, and the symbols in quoted data. -/
def Program.AllNames (P : String → Prop) (p : Program) : Prop :=
  p.AllAtoms (Datum.Named P)

/-! ## Desugaring -/

/-- The forms of a desugared program: the definition in front, and one for each form. -/
theorem Program.mem_forms_of_desugar {policy : ValuePolicy} {p q : Program}
    (h : p.desugar policy = .ok q) {f' : Form} (hf' : f' ∈ q.forms) :
    f' = lookupDefinition ∨ ∃ f ∈ p.forms, f.Related (Expr.Desugars policy) f' := by
  obtain ⟨q', hq', rfl⟩ := desugar_eq_ok_iff.1 h
  rcases List.mem_cons.1 hf' with rfl | hf'
  · exact Or.inl rfl
  · obtain ⟨f, hf, hff'⟩ := exists_mem_left_of_forall₂ (desugarForms_eq_ok_iff.1 hq') hf'
    exact Or.inr ⟨f, hf, Form.desugar_eq_ok_iff.1 hff'⟩

def addedNames : List String :=
  lookupName :: ["pairs", "k", "car", "cdr", "eq?"] ++ keywords

theorem Entry.toDatum_eq_ok_iff {policy : ValuePolicy} {x : Entry Expr} {d : Datum} :
    x.toDatum policy = .ok d ↔ ∃ name value, x.key.keyName = .ok name
      ∧ policy.quoteValue x.value = .ok value ∧ .pair (.symbol name) value = d := by
  simp only [Entry.toDatum, bind_eq_ok, Except.ok.injEq]
  constructor
  · rintro ⟨name, hname, value, hvalue, rfl⟩
    exact ⟨name, value, hname, hvalue, rfl⟩
  · rintro ⟨name, value, hname, hvalue, rfl⟩
    exact ⟨name, hname, value, hvalue, rfl⟩

theorem Expr.allAtoms_of_quoteCodes {es : List Expr} {ds : List Datum}
    (h : quoteCodes es = .ok ds)
    (ih : ∀ e ∈ es, ∀ {d}, e.quoteCode = .ok d → e.AllAtoms P → d.AllAtoms P)
    (hes : ∀ e ∈ es, e.AllAtoms P) : ∀ d ∈ ds, d.AllAtoms P := by
  intro d hd
  obtain ⟨e, he, hed⟩ := exists_mem_left_of_forall₂ (quoteCodes_inOrder.eq_ok_iff.1 h) hd
  exact ih e he hed (hes e he)

section Desugaring

variable (hadded : ∀ name ∈ addedNames, P (.symbol name))
include hadded

theorem Expr.allAtoms_of_quoteCode {e : Expr} {d : Datum} (h : e.quoteCode = .ok d)
    (he : e.AllAtoms P) : d.AllAtoms P := by
  have hkeyword : ∀ keyword ∈ keywords, P (.symbol keyword) := fun keyword hmem =>
    hadded keyword (List.mem_append_right _ hmem)
  induction e using Expr.induction generalizing d with
  | leaf e hleaf =>
      cases e with
      | number _ | bool _ | str _ | var _ | prim _ =>
          cases h
          exact (allAtoms_iff.1 he).1
      | literal d' =>
          cases h
          exact Datum.allAtoms_headed.2
            ⟨hkeyword "quote" (by decide), List.forall_mem_singleton.2 (allAtoms_literal.1 he)⟩
      | cond | lambda | app | letIn | dict => cases hleaf
  | cond test yes no iht ihy ihn =>
      obtain ⟨het, hey, hen⟩ := allAtoms_cond.1 he
      simp only [quoteCode, bind_eq_ok] at h
      obtain ⟨t, ht, y, hy, n, hn, h⟩ := h
      cases h
      refine Datum.allAtoms_headed.2 ⟨hkeyword "if" (by decide), List.forall_mem_cons.2 ?_⟩
      exact ⟨iht ht het, List.forall_mem_cons.2
        ⟨ihy hy hey, List.forall_mem_singleton.2 (ihn hn hen)⟩⟩
  | lambda params body ih =>
      obtain ⟨hparams, hbody⟩ := allAtoms_lambda.1 he
      simp only [quoteCode, bind_eq_ok] at h
      obtain ⟨ds, hds, h⟩ := h
      cases h
      refine Datum.allAtoms_headed.2 ⟨hkeyword "lambda" (by decide), List.forall_mem_cons.2 ?_⟩
      refine ⟨Datum.allAtoms_ofList.2 fun d hd => ?_, allAtoms_of_quoteCodes hds ih hbody⟩
      obtain ⟨name, hname, rfl⟩ := List.mem_map.1 hd
      exact Datum.allAtoms_symbol.2 (hparams name hname)
  | app operator operands ihf ih =>
      obtain ⟨hoperator, hoperands⟩ := allAtoms_app.1 he
      simp only [quoteCode, bind_eq_ok] at h
      obtain ⟨f, hf, ds, hds, h⟩ := h
      cases h
      exact Datum.allAtoms_ofList.2 (List.forall_mem_cons.2
        ⟨ihf hf hoperator, allAtoms_of_quoteCodes hds ih hoperands⟩)
  | letIn bindings body ihd ih =>
      obtain ⟨hbindings, hbody⟩ := allAtoms_letIn.1 he
      simp only [quoteCode, bind_eq_ok] at h
      obtain ⟨bs, hbs, ds, hds, h⟩ := h
      cases h
      refine Datum.allAtoms_headed.2 ⟨hkeyword "let" (by decide), List.forall_mem_cons.2 ?_⟩
      refine ⟨Datum.allAtoms_ofList.2 fun d hd => ?_, allAtoms_of_quoteCodes hds ih hbody⟩
      obtain ⟨b, hb, hbd⟩ := exists_mem_left_of_forall₂ (quoteBindings_inOrder.eq_ok_iff.1 hbs) hd
      obtain ⟨value, hvalue, rfl⟩ := map_eq_ok.1 hbd
      obtain ⟨hname, he⟩ := hbindings b hb
      exact Datum.allAtoms_ofList.2 (List.forall_mem_cons.2
        ⟨Datum.allAtoms_symbol.2 hname, List.forall_mem_singleton.2 (ihd b hb hvalue he)⟩)
  | dict entries _ => cases h

theorem Expr.allAtoms_of_quoteValue {policy : ValuePolicy} {e : Expr} {d : Datum}
    (h : policy.quoteValue e = .ok d) (he : e.AllAtoms P) : d.AllAtoms P := by
  have hquote : e.quote = .ok d → d.AllAtoms P := by
    intro h
    cases e with
    | literal _ =>
        cases h
        exact allAtoms_literal.1 he
    | _ => exact allAtoms_of_quoteCode hadded h he
  cases policy with
  | literal => exact hquote (Expr.quote_of_encode h)
  | structural => exact hquote h

/-- The pair of an entry. -/
theorem Entry.allAtoms_of_toDatum {policy : ValuePolicy} {x : Entry Expr} {d : Datum}
    (h : x.toDatum policy = .ok d) (hkey : x.key.AllAtoms P) (hvalue : x.value.AllAtoms P) :
    d.AllAtoms P := by
  obtain ⟨name, value, hname, hquote, rfl⟩ := Entry.toDatum_eq_ok_iff.1 h
  refine Datum.allAtoms_pair.2 ⟨Datum.allAtoms_symbol.2 ?_,
    Expr.allAtoms_of_quoteValue hadded hquote hvalue⟩
  -- a key is a variable or a quoted symbol, and its name is its only atom
  rcases Expr.keyName_eq_ok_iff.1 hname with hx | hx
  · rw [hx] at hkey
    exact Expr.allAtoms_var.1 hkey
  · rw [hx] at hkey
    exact Datum.allAtoms_symbol.1 (Expr.allAtoms_literal.1 hkey)

/-- **Desugaring makes no atoms** but the names that it adds. -/
theorem allAtoms_of_desugar {policy : ValuePolicy} {e e' : Expr} (h : e.desugar policy = .ok e')
    (he : e.AllAtoms P) : e'.AllAtoms P := by
  refine desugar_induction (motive := fun e e' => e.AllAtoms P → e'.AllAtoms P) ?_ ?_ h he
  · -- the same construct, with the same names and constants of its own
    intro e e' hcongr he
    refine Expr.allAtoms_iff.2 ⟨?_, fun c' hc' => ?_⟩
    · rw [hcongr.ownAtoms_eq]
      exact (Expr.allAtoms_iff.1 he).1
    · obtain ⟨c, hc, hcc'⟩ := exists_mem_left_of_forall₂ hcongr.parts hc'
      exact hcc' (he.of_mem_parts hc)
  · -- a dictionary literal: the pairs come from its entries, and the name in front is added
    intro entries entries' e' hentries hcall he
    obtain ⟨ds, hds, rfl⟩ := lookupCall_eq_ok_iff.1 hcall
    have hdata : (Datum.ofList ds).AllAtoms P := by
      refine Datum.allAtoms_ofList.2 fun d hd => ?_
      obtain ⟨x', hx', hxd⟩ := exists_mem_left_of_forall₂
        ((toData_inOrder policy).eq_ok_iff.1 hds) hd
      obtain ⟨x, hx, hxx'⟩ := exists_mem_left_of_forall₂ hentries hx'
      obtain ⟨hkey, hvalue⟩ := Expr.allAtoms_dict.1 he x hx
      exact Entry.allAtoms_of_toDatum hadded hxd (hxx'.key hkey) (hxx'.value hvalue)
    have hname : P (.symbol lookupName) := hadded lookupName (by decide)
    simp [hname, hdata]

theorem allAtoms_lookupDefinition : lookupDefinition.AllAtoms P := by
  simp only [addedNames, List.cons_append, List.nil_append, List.forall_mem_cons] at hadded
  obtain ⟨hdict, hpairs, hk, hcar, hcdr, heq, _⟩ := hadded
  simp [lookupDefinition, lookupProcedure, Expr.primCall, Form.AllAtoms, *]

/-- The same for a program, with the definition in front. -/
theorem Program.allAtoms_of_desugar {policy : ValuePolicy} {p q : Program}
    (h : p.desugar policy = .ok q) (hp : p.AllAtoms P) : q.AllAtoms P := by
  intro f' hf'
  rcases mem_forms_of_desugar h hf' with rfl | ⟨f, hf, hff'⟩
  · exact allAtoms_lookupDefinition hadded
  · have hform := hp f hf
    cases hff' with
    | define name he => exact ⟨hform.1, L32.allAtoms_of_desugar hadded he hform.2⟩
    | expr he => exact L32.allAtoms_of_desugar hadded he hform

end Desugaring

end L32
