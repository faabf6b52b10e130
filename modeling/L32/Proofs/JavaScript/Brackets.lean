import L32.Proofs.JavaScript.NormalForm
import L32.Proofs.JavaScript.Scanner

set_option autoImplicit false

/-! # JavaScript texts are well bracketed

An expression shows its parts and their names in its text, but for operands that an operator has no
use for (`Expr.Shown`); what it shows stands in the text (`Expr.Shown.exists_within`). If the names
that it shows have no parenthesis, double quote or divider, then its text is sealed, on its own and
as a part of a conditional alike (`sealed_of_unparse`). So a conditional is divided by its own `?`
and `:` only, which is the main part of `javascript_text_well_bracketed`. -/

namespace L32

open JavaScript

/-! ## What an expression shows -/

namespace Expr

/-- The parts of an expression that its text shows. Operands that an operator of the table has no
use for are left out. -/
def shownParts : Expr → List Expr
  | cond test yes no => [test, yes, no]
  | lambda _ body => body
  | app operator operands =>
    match operator.prim? with
    | none => operator :: operands
    | some name =>
      match operator? name with
      | some operator => operator.kept operands
      | none => operands
  | _ => []

/-- The names that an expression itself writes as they are, with the tokens that some primitive
operators have instead. -/
def shownNames : Expr → List String
  | var name => [name]
  | prim name => [operatorToken name]
  | lambda params _ => params
  | app operator _ =>
    match operator.prim? with
    | none => []
    | some name => if (operator? name).isSome then [] else [name]
  | _ => []

/-- The text of the second expression shows the first one, at some depth. -/
inductive Shown (d : Expr) : Expr → Prop
  | here : Shown d d
  | inside {c e : Expr} (hc : c ∈ e.shownParts) (h : Shown d c) : Shown d e

/-- No name that the text shows has a parenthesis, a double quote or a divider. -/
def ShowsPlainNames (e : Expr) : Prop :=
  ∀ d, Shown d e → ∀ name ∈ d.shownNames, Unstructured name

theorem showsPlainNames_iff {e : Expr} :
    e.ShowsPlainNames
      ↔ (∀ name ∈ e.shownNames, Unstructured name) ∧ ∀ c ∈ e.shownParts, c.ShowsPlainNames := by
  constructor
  · intro h
    exact ⟨h e .here, fun c hc d hd => h d (.inside hc hd)⟩
  · rintro ⟨hnames, hparts⟩ d hd
    cases hd with
    | here => exact hnames
    | inside hc hd => exact hparts _ hc d hd

/-- Whether an expression is the application of an operator of the table. -/
def isOperation : Expr → Bool
  | app operator _ => (operator.prim?.bind operator?).isSome
  | _ => false

end Expr

/-- On its own an operation stands in parentheses, and as a part of a conditional it does not.
Everything else has the same text in both places. -/
theorem unparse_alone_eq (e : Expr) :
    e.unparse .alone = if e.isOperation then (e.unparse .part).map fun u => "(" ++ u ++ ")"
      else e.unparse .part := by
  cases e with
  | app operator operands =>
      cases hprim : operator.prim? with
      | none =>
          have hno : (Expr.app operator operands).isOperation = false := by
            simp [Expr.isOperation, hprim]
          rw [hno, unparse_app_of_prim?_eq_none hprim, unparse_app_of_prim?_eq_none hprim]
          rfl
      | some name =>
          obtain rfl := Expr.eq_prim_of_prim? hprim
          show (Expr.unparseAll operands >>= primText .alone name)
            = if (operator? name).isSome then
                (Expr.unparseAll operands >>= primText .part name).map _
              else Expr.unparseAll operands >>= primText .part name
          cases Expr.unparseAll operands with
          | error err => split <;> rfl
          | ok ts =>
              show primText .alone name ts
                = if (operator? name).isSome then (primText .part name ts).map _
                  else primText .part name ts
              cases hoperator : operator? name with
              | none => simp [primText, hoperator]
              | some operator =>
                  cases hwrite : operator.write? ts <;>
                    simp [primText, hoperator, hwrite, Place.wrap, Except.map]
  | lambda params body =>
      cases body with
      | nil => rfl
      | cons e es => rfl
  | _ => rfl

/-! ## The texts of expressions -/

theorem JavaScript.Operator.mem_of_mem_kept {α : Type} {operator : Operator} {a : α} {as : List α}
    (h : a ∈ operator.kept as) : a ∈ as := by
  cases operator with
  | chain symbol => exact h
  | _ => exact List.mem_of_mem_take h

theorem sealed_of_haveTexts {es : List Expr} {ts : List String}
    (ih : ∀ e ∈ es, ∀ place t, e.unparse place = .ok t → Sealed t) (hts : Expr.HaveTexts es ts) :
    ∀ t ∈ ts, Sealed t := by
  intro t ht
  obtain ⟨e, he, h⟩ := exists_mem_left_of_forall₂ hts ht
  exact ih e he .alone t h

/-- What is shown is a part. -/
theorem Expr.mem_parts_of_mem_shownParts {c e : Expr} (h : c ∈ e.shownParts) : c ∈ e.parts := by
  cases e with
  | cond test yes no => exact h
  | lambda params body => exact h
  | app operator operands =>
      simp only [shownParts] at h
      split at h
      · exact h
      · split at h
        · exact List.mem_cons_of_mem _ (Operator.mem_of_mem_kept h)
        · exact List.mem_cons_of_mem _ h
  | _ => cases h

/-- **The text of an expression is sealed**, if the names in it have no structure. -/
theorem sealed_of_unparse (e : Expr) :
    e.ShowsPlainNames → ∀ place t, e.unparse place = .ok t → Sealed t := by
  induction e using Expr.parts_induction with
  | step e ih =>
      intro hplain place t h
      obtain ⟨hnames, hparts⟩ := Expr.showsPlainNames_iff.1 hplain
      -- the induction is needed for what is shown only, and there the names are plain
      replace ih : ∀ c ∈ e.shownParts, ∀ place t, c.unparse place = .ok t → Sealed t :=
        fun c hc => ih c (Expr.mem_parts_of_mem_shownParts hc) (hparts c hc)
      cases hasText_of_unparse h with
      | number x => exact sealed_numberText x
      | bool b => exact sealed_boolText b
      | str s => exact .of_passes_nil (passes_stringText s)
      | var name => exact .of_unstructured (hnames t List.mem_cons_self)
      | prim name => exact .of_unstructured (hnames _ List.mem_cons_self)
      | cond htest hyes hno =>
          simp only [Expr.shownParts, List.forall_mem_cons] at ih
          exact sealed_condText (ih.1 .part _ htest).bracketed (ih.2.1 .part _ hyes).bracketed
            (ih.2.2.1 .part _ hno).bracketed
      | lambda params hbody => exact sealed_lambdaText hnames (sealed_of_haveTexts ih hbody)
      | call hprim hcallee hoperands =>
          simp only [Expr.shownParts, hprim, List.forall_mem_cons] at ih
          exact sealed_callText (ih.1 .alone _ hcallee) (sealed_of_haveTexts ih.2 hoperands)
      | primCall hoperator hoperands =>
          simp only [Expr.shownParts, Expr.shownNames, Expr.prim?, hoperator] at ih hnames
          exact sealed_callText (.of_unstructured (hnames _ List.mem_cons_self))
            (sealed_of_haveTexts ih hoperands)
      | @operation name operator operands ts u hoperator hoperands hu =>
          simp only [Expr.shownParts, Expr.prim?, hoperator] at ih
          have hkept := sealed_of_haveTexts ih (forall₂_kept operator hoperands)
          rw [← write?_kept] at hu
          have hsealed := sealed_write? (unstructured_of_operator? hoperator) hkept hu
          cases place with
          | alone => exact hsealed.bracketed.parens
          | part => exact hsealed

/-! ## What is shown stands in the text -/

/-- The first text stands somewhere in the second one. -/
def JavaScript.Within (u t : String) : Prop :=
  u.toList <:+: t.toList

namespace JavaScript.Within

variable {s t u : String}

theorem refl (t : String) : Within t t :=
  List.infix_rfl

theorem trans (h : Within s t) (h' : Within t u) : Within s u :=
  List.IsInfix.trans h h'

theorem append_left (h : Within u t) (s : String) : Within u (s ++ t) := by
  rw [Within, String.toList_append]
  exact List.IsInfix.trans h (List.suffix_append _ _).isInfix

theorem append_right (h : Within u t) (s : String) : Within u (t ++ s) := by
  rw [Within, String.toList_append]
  exact List.IsInfix.trans h (List.prefix_append _ _).isInfix

theorem joinWith {separator : String} {ts : List String} (h : u ∈ ts) :
    Within u (joinWith separator ts) := by
  induction ts with
  | nil => cases h
  | cons t ts ih =>
      rw [joinWith_cons]
      rcases List.mem_cons.1 h with rfl | h
      · split
        · exact .refl u
        · exact ((refl u).append_right _).append_right _
      · rw [if_neg (by simpa using List.ne_nil_of_mem h)]
        exact (ih h).append_left _

theorem parens (h : Within u t) : Within u ("(" ++ t ++ ")") :=
  (h.append_left "(").append_right ")"

theorem callText {callee : String} {ts : List String} (h : u = callee ∨ u ∈ ts) :
    Within u (callText callee ts) := by
  unfold JavaScript.callText
  rcases h with rfl | h
  · exact (((refl u).append_right _).append_right _).append_right _
  · exact ((joinWith h).append_left _).append_right _

theorem lambdaText {params ts : List String} (h : u ∈ ts) : Within u (lambdaText params ts) := by
  have hbody : Within u (bodyText ts) := by
    unfold bodyText
    split
    · rw [List.mem_singleton.1 h]
      exact refl _
    · exact (joinWith h).parens
  exact (hbody.append_left _).append_right _

theorem condText {t₁ t₂ t₃ : String} (h : u = t₁ ∨ u = t₂ ∨ u = t₃) :
    Within u (condText t₁ t₂ t₃) := by
  unfold JavaScript.condText
  rcases h with rfl | rfl | rfl
  · exact ((((((refl u).append_left _).append_right _).append_right _).append_right _).append_right
      _).append_right _
  · exact ((((refl u).append_left _).append_right _).append_right _).append_right _
  · exact ((refl u).append_left _).append_right _

theorem write? {operator : Operator} {ts : List String} (hu : u ∈ operator.kept ts)
    (h : operator.write? (operator.kept ts) = some t) : Within u t := by
  cases operator with
  | chain symbol =>
      obtain _ | ⟨t₁, _ | ⟨t₂, ts⟩⟩ := ts <;> cases h
      exact joinWith hu
  | equality =>
      obtain _ | ⟨t₁, _ | ⟨t₂, ts⟩⟩ := ts <;> cases h
      simp only [Operator.kept, List.take_succ_cons, List.take_zero, List.mem_cons,
        List.not_mem_nil, or_false] at hu
      rcases hu with rfl | rfl
      · exact ((refl u).append_right _).append_right _
      · exact (refl u).append_left _
  | negation =>
      obtain _ | ⟨t₁, ts⟩ := ts <;> cases h
      rw [List.mem_singleton.1 hu]
      exact (refl t₁).append_left _
  | typeTest type =>
      obtain _ | ⟨t₁, ts⟩ := ts <;> cases h
      rw [List.mem_singleton.1 hu]
      exact ((((refl t₁).append_left _).append_right _).append_right _).append_right _

theorem wrap (h : Within u t) (place : Place) : Within u (place.wrap t) := by
  cases place with
  | alone => exact h.parens
  | part => exact h

end JavaScript.Within

theorem exists_mem_of_haveTexts {es : List Expr} {ts : List String} (hts : Expr.HaveTexts es ts)
    {c : Expr} (hc : c ∈ es) : ∃ u ∈ ts, c.unparse .alone = .ok u :=
  exists_mem_left_of_forall₂ hts.flip hc

/-- The text of a part that is shown stands in the text of the whole. -/
theorem exists_within_of_mem_shownParts {c e : Expr} (hc : c ∈ e.shownParts) {place : Place}
    {t : String} (h : e.unparse place = .ok t) :
    ∃ place' u, c.unparse place' = .ok u ∧ Within u t := by
  cases hasText_of_unparse h with
  | number _ | bool _ | str _ | var _ | prim _ => cases hc
  | cond htest hyes hno =>
      simp only [Expr.shownParts, List.mem_cons, List.not_mem_nil, or_false] at hc
      rcases hc with rfl | rfl | rfl
      · exact ⟨.part, _, htest, .condText (.inl rfl)⟩
      · exact ⟨.part, _, hyes, .condText (.inr (.inl rfl))⟩
      · exact ⟨.part, _, hno, .condText (.inr (.inr rfl))⟩
  | lambda params hbody =>
      obtain ⟨u, hu, hcu⟩ := exists_mem_of_haveTexts hbody hc
      exact ⟨.alone, u, hcu, .lambdaText hu⟩
  | call hprim hcallee hoperands =>
      simp only [Expr.shownParts, hprim, List.mem_cons] at hc
      rcases hc with rfl | hc
      · exact ⟨.alone, _, hcallee, .callText (.inl rfl)⟩
      · obtain ⟨u, hu, hcu⟩ := exists_mem_of_haveTexts hoperands hc
        exact ⟨.alone, u, hcu, .callText (.inr hu)⟩
  | primCall hoperator hoperands =>
      simp only [Expr.shownParts, Expr.prim?, hoperator] at hc
      obtain ⟨u, hu, hcu⟩ := exists_mem_of_haveTexts hoperands hc
      exact ⟨.alone, u, hcu, .callText (.inr hu)⟩
  | @operation name operator operands ts v hoperator hoperands hv =>
      simp only [Expr.shownParts, Expr.prim?, hoperator] at hc
      obtain ⟨u, hu, hcu⟩ := exists_mem_of_haveTexts (forall₂_kept operator hoperands) hc
      -- what is left out has been written as well, but the table takes no notice of it
      rw [← write?_kept] at hv
      exact ⟨.alone, u, hcu, (Within.write? hu hv).wrap place⟩

/-- Whatever is shown has a text, and it stands in the text of the whole. -/
theorem Expr.Shown.exists_within {d e : Expr} (hd : d.Shown e) {place : Place} {t : String}
    (h : e.unparse place = .ok t) : ∃ place' u, d.unparse place' = .ok u ∧ Within u t := by
  induction hd generalizing place t with
  | here => exact ⟨place, t, h, .refl t⟩
  | inside hc _ ih =>
      obtain ⟨place', u, hu, hwithin⟩ := exists_within_of_mem_shownParts hc h
      obtain ⟨place'', v, hv, hwithin'⟩ := ih hu
      exact ⟨place'', v, hv, hwithin'.trans hwithin⟩

theorem Expr.Shown.trans {c d e : Expr} (hc : c.Shown d) (hd : d.Shown e) : c.Shown e := by
  induction hd with
  | here => exact hc
  | inside hpart _ ih => exact .inside hpart ih

/-! ## Conditionals -/

/-- The parts of a conditional are well bracketed and have no divider outside their parentheses. So
the question mark and the colon of the conditional, each between the dividers of two parts, are the
only ones at depth one. -/
structure JavaScript.Divided (t₁ t₂ t₃ : String) (ms₁ ms₂ ms₃ : List (Nat × Char)) : Prop where
  test : scan? t₁ = some ms₁
  yes : scan? t₂ = some ms₂
  no : scan? t₃ = some ms₃
  inside : ∀ m ∈ ms₁ ++ ms₂ ++ ms₃, 0 < m.1
  whole : scan? (condText t₁ t₂ t₃)
    = some (deepen 1 ms₁ ++ (1, '?') :: (deepen 1 ms₂ ++ (1, ':') :: deepen 1 ms₃))
  only : (deepen 1 ms₁ ++ (1, '?') :: (deepen 1 ms₂ ++ (1, ':') :: deepen 1 ms₃)).filter (·.1 = 1)
    = [(1, '?'), (1, ':')]

/-- What is sealed has nothing at depth one when it is put into parentheses. -/
theorem JavaScript.filter_deepen_one {ms : List (Nat × Char)} (h : ∀ m ∈ ms, 0 < m.1) :
    (deepen 1 ms).filter (·.1 = 1) = [] := by
  rw [List.filter_eq_nil_iff]
  intro m hm
  obtain ⟨m', hm', rfl⟩ := List.mem_map.1 hm
  have := h m' hm'
  simp only [decide_eq_true_eq]
  omega

theorem JavaScript.exists_divided {t₁ t₂ t₃ : String} (h₁ : Sealed t₁) (h₂ : Sealed t₂)
    (h₃ : Sealed t₃) : ∃ ms₁ ms₂ ms₃, Divided t₁ t₂ t₃ ms₁ ms₂ ms₃ := by
  obtain ⟨ms₁, hms₁, hpos₁⟩ := h₁
  obtain ⟨ms₂, hms₂, hpos₂⟩ := h₂
  obtain ⟨ms₃, hms₃, hpos₃⟩ := h₃
  refine ⟨ms₁, ms₂, ms₃, hms₁.scan?_eq, hms₂.scan?_eq, hms₃.scan?_eq, ?_,
    (passes_condText hms₁ hms₂ hms₃).scan?_eq, ?_⟩
  · intro m hm
    simp only [List.mem_append] at hm
    rcases hm with (hm | hm) | hm
    · exact hpos₁ m hm
    · exact hpos₂ m hm
    · exact hpos₃ m hm
  · simp [filter_deepen_one hpos₁, filter_deepen_one hpos₂, filter_deepen_one hpos₃]

/-- **A JavaScript text is well bracketed, and the parts of a conditional cannot leak.** Let the
names that the text of an expression shows have no parenthesis, double quote or divider. Then the
text is well bracketed outside its string literals, and for each conditional in it the dividers are
as `Divided` says. The text of a part differs from that on its own only for the operators of the
table, and there by the parentheses around it. -/
theorem javascript_text_well_bracketed {e : Expr} {t : String} (h : e.toJavaScript = .ok t)
    (hnames : e.ShowsPlainNames) :
    (∃ ms, scan? t = some ms)
    ∧ (∀ test yes no, (Expr.cond test yes no).Shown e →
        ∃ t₁ t₂ t₃ ms₁ ms₂ ms₃, test.unparse .part = .ok t₁ ∧ yes.unparse .part = .ok t₂
          ∧ no.unparse .part = .ok t₃ ∧ Within (condText t₁ t₂ t₃) t
          ∧ Divided t₁ t₂ t₃ ms₁ ms₂ ms₃)
    ∧ ∀ d : Expr, d.unparse .alone
        = if d.isOperation then (d.unparse .part).map fun u => "(" ++ u ++ ")"
          else d.unparse .part := by
  refine ⟨?_, ?_, unparse_alone_eq⟩
  · obtain ⟨ms, hms, _⟩ := sealed_of_unparse e hnames .alone t h
    exact ⟨ms, hms.scan?_eq⟩
  · intro test yes no hshown
    have hparts : ∀ c ∈ [test, yes, no], c.ShowsPlainNames := fun c hc d hd =>
      hnames d (hd.trans (.trans (.inside hc .here) hshown))
    simp only [List.forall_mem_cons] at hparts
    obtain ⟨place, u, hu, hwithin⟩ := hshown.exists_within h
    cases hasText_of_unparse hu with
    | @cond _ _ _ t₁ t₂ t₃ h₁ h₂ h₃ =>
        obtain ⟨ms₁, ms₂, ms₃, hdivided⟩ := exists_divided
          (sealed_of_unparse test hparts.1 .part t₁ h₁)
          (sealed_of_unparse yes hparts.2.1 .part t₂ h₂)
          (sealed_of_unparse no hparts.2.2.1 .part t₃ h₃)
        exact ⟨t₁, t₂, t₃, ms₁, ms₂, ms₃, h₁, h₂, h₃, hwithin, hdivided⟩

/-- A conditional with a call, and with a string that has structure of its own, as the operand of an
equality. The third operand, a variable with the name `(`, is not shown. -/
theorem javascript_text_well_bracketed_operand :
    (∃ ms, scan? "((!x ? \"?)\" : f(y,z)) === k)" = some ms)
    ∧ ∃ t₁ t₂ t₃ ms₁ ms₂ ms₃, t₁ = "!x" ∧ t₂ = "\"?)\"" ∧ t₃ = "f(y,z)"
      ∧ Divided t₁ t₂ t₃ ms₁ ms₂ ms₃ := by
  let choice : Expr :=
    .cond (.app (.prim "not") [.var "x"]) (.str "?)") (.app (.var "f") [.var "y", .var "z"])
  let e : Expr := .app (.prim "=") [choice, .var "k", .var "("]
  have htext : e.toJavaScript = .ok "((!x ? \"?)\" : f(y,z)) === k)" := rfl
  have hvar : ∀ name, Unstructured name → (Expr.var name).ShowsPlainNames := fun name hname =>
    Expr.showsPlainNames_iff.2 ⟨List.forall_mem_singleton.2 hname, nofun⟩
  have hnot : (Expr.app (.prim "not") [.var "x"]).ShowsPlainNames :=
    Expr.showsPlainNames_iff.2 ⟨nofun, List.forall_mem_singleton.2 (hvar "x" (by decide))⟩
  have hcall : (Expr.app (.var "f") [.var "y", .var "z"]).ShowsPlainNames :=
    Expr.showsPlainNames_iff.2 ⟨nofun, List.forall_mem_cons.2 ⟨hvar "f" (by decide),
      List.forall_mem_cons.2 ⟨hvar "y" (by decide),
        List.forall_mem_singleton.2 (hvar "z" (by decide))⟩⟩⟩
  have hchoice : choice.ShowsPlainNames :=
    Expr.showsPlainNames_iff.2 ⟨nofun, List.forall_mem_cons.2 ⟨hnot,
      List.forall_mem_cons.2 ⟨Expr.showsPlainNames_iff.2 ⟨nofun, nofun⟩,
        List.forall_mem_singleton.2 hcall⟩⟩⟩
  have hnames : e.ShowsPlainNames :=
    Expr.showsPlainNames_iff.2 ⟨nofun, List.forall_mem_cons.2 ⟨hchoice,
      List.forall_mem_singleton.2 (hvar "k" (by decide))⟩⟩
  have hshown : choice.Shown e := .inside List.mem_cons_self .here
  obtain ⟨hscan, hcond, _⟩ := javascript_text_well_bracketed htext hnames
  obtain ⟨t₁, t₂, t₃, ms₁, ms₂, ms₃, h₁, h₂, h₃, _, hdivided⟩ := hcond _ _ _ hshown
  cases h₁
  cases h₂
  cases h₃
  exact ⟨hscan, _, _, _, ms₁, ms₂, ms₃, rfl, rfl, rfl, hdivided⟩

end L32
