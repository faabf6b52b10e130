import L32.Proofs.Chains
import L32.Proofs.Scheme.Lines

set_option autoImplicit false

/-! # The text of quoted code

Code is written by one printer and data by another. Quoting goes from the one to the other: it turns
code into a list, and the text of that list is the text of the code again, with one difference.
Quoted data inside code has an apostrophe in front when code is written, while the list shows it as
a list headed by `quote`.

`Expr.schemeWith` is the printer of code with the writing of quoted data left open. With the
apostrophe it is the printer itself (`schemeWith_apostrophe`). It gives the text of the quoted code
as soon as it writes the quoted data in the code in full (`toScheme_of_quoteCode`), so if there is
none, the apostrophe will do. The main statement is `quoted_code_prints_as_code`. -/

namespace L32

namespace SchemeText

/-- Quoted data with an apostrophe in front. -/
def apostrophe (d : Datum) : String :=
  "'" ++ d.toScheme

/-- Quoted data as a list headed by `quote`. -/
def inFull (d : Datum) : String :=
  "(quote " ++ d.toScheme ++ ")"

end SchemeText

/-! ## Quoted data left open -/

mutual

/-- The Scheme text of an expression in which quoted data is written as `quotation` says. -/
def Expr.schemeWith (quotation : Datum → String) : Expr → String
  | .number x => SchemeText.ofNumber x
  | .bool b => SchemeText.ofBool b
  | .str s => SchemeText.ofString s
  | .var name => name
  | .prim name => name
  | .literal d => quotation d
  | .cond test yes no =>
    "(if " ++ test.schemeWith quotation ++ " " ++ yes.schemeWith quotation ++ " "
      ++ no.schemeWith quotation ++ ")"
  | .lambda params body =>
    "(lambda (" ++ joinWith " " params ++ ")"
      ++ leadWith " " (Expr.schemeTextsWith quotation body) ++ ")"
  | .app operator operands =>
    "(" ++ operator.schemeWith quotation
      ++ leadWith " " (Expr.schemeTextsWith quotation operands) ++ ")"
  | .letIn bindings body =>
    "(let (" ++ joinWith " " (Expr.bindingTextsWith quotation bindings) ++ ")"
      ++ leadWith " " (Expr.schemeTextsWith quotation body) ++ ")"
  | .dict entries => "(dict" ++ leadWith " " (Expr.entryTextsWith quotation entries) ++ ")"

def Expr.schemeTextsWith (quotation : Datum → String) : List Expr → List String
  | [] => []
  | e :: es => e.schemeWith quotation :: Expr.schemeTextsWith quotation es

/-- The texts of bindings, `(name value)` each. -/
def Expr.bindingTextsWith (quotation : Datum → String) : List (Binding Expr) → List String
  | [] => []
  | ⟨name, e⟩ :: bs =>
    ("(" ++ name ++ " " ++ e.schemeWith quotation ++ ")") :: Expr.bindingTextsWith quotation bs

/-- The texts of dictionary entries, `(key value)` each. -/
def Expr.entryTextsWith (quotation : Datum → String) : List (Entry Expr) → List String
  | [] => []
  | ⟨k, e⟩ :: es =>
    ("(" ++ k.schemeWith quotation ++ " " ++ e.schemeWith quotation ++ ")")
      :: Expr.entryTextsWith quotation es

end

namespace Expr

section Lists

variable (quotation : Datum → String)

theorem schemeTextsWith_eq_map (es : List Expr) :
    schemeTextsWith quotation es = es.map (schemeWith quotation) := by
  induction es with
  | nil => rfl
  | cons e es ih => rw [schemeTextsWith, ih, List.map_cons]

theorem bindingTextsWith_eq_map (bs : List (Binding Expr)) :
    bindingTextsWith quotation bs
      = bs.map fun b => "(" ++ b.name ++ " " ++ b.value.schemeWith quotation ++ ")" := by
  induction bs with
  | nil => rfl
  | cons b bs ih => rw [bindingTextsWith, ih, List.map_cons]

theorem entryTextsWith_eq_map (xs : List (Entry Expr)) :
    entryTextsWith quotation xs
      = xs.map fun x =>
          "(" ++ x.key.schemeWith quotation ++ " " ++ x.value.schemeWith quotation ++ ")" := by
  induction xs with
  | nil => rfl
  | cons x xs ih => rw [entryTextsWith, ih, List.map_cons]

end Lists

/-- **With the apostrophe it is the text of the expression.** -/
theorem schemeWith_apostrophe (e : Expr) : e.schemeWith SchemeText.apostrophe = e.toScheme := by
  induction e using Expr.induction with
  | leaf e he =>
      cases e with
      | number _ | bool _ | str _ | var _ | prim _ | literal _ => rfl
      | cond | lambda | app | letIn | dict => cases he
  | cond test yes no iht ihy ihn => rw [schemeWith, toScheme, iht, ihy, ihn]
  | lambda params body ih =>
      rw [schemeWith, toScheme, schemeTextsWith_eq_map, schemeTexts_eq_map, List.map_congr_left ih]
  | app operator operands ihf ih =>
      rw [schemeWith, toScheme, schemeTextsWith_eq_map, schemeTexts_eq_map, ihf,
        List.map_congr_left ih]
  | letIn bindings body ihd ih =>
      have hbindings : bindingTextsWith SchemeText.apostrophe bindings = bindingTexts bindings := by
        rw [bindingTextsWith_eq_map, bindingTexts_eq_map]
        apply List.map_congr_left
        intro b hb
        rw [ihd b hb]
      rw [schemeWith, toScheme, hbindings, schemeTextsWith_eq_map, schemeTexts_eq_map,
        List.map_congr_left ih]
  | dict entries ih =>
      have hentries : entryTextsWith SchemeText.apostrophe entries = entryTexts entries := by
        rw [entryTextsWith_eq_map, entryTexts_eq_map]
        apply List.map_congr_left
        intro x hx
        rw [(ih x hx).1, (ih x hx).2]
      rw [schemeWith, toScheme, hentries]

end Expr

/-! ## The text of a list -/

namespace Datum

/-- What is written for the end of a chain: nothing for the empty list, and a point in front of
everything else. -/
def endText : Datum → String
  | empty => ""
  | d => " . " ++ d.toScheme

/-- The text of a chain behind its first member shows the members and the end. -/
theorem tailText_eq (d : Datum) :
    d.tailText = leadWith " " (d.items.map toScheme) ++ d.final.endText ++ ")" := by
  induction d with
  | pair h t _ iht =>
      rw [tailText, iht, items, List.map_cons, leadWith, final]
      simp only [String.append_assoc]
  | empty => rfl
  | symbol _ | number _ | bool _ | str _ =>
      simp only [tailText, items, List.map_nil, leadWith, final, endText, toScheme,
        String.empty_append]

theorem tailText_ofList (ds : List Datum) :
    (ofList ds).tailText = leadWith " " (ds.map toScheme) ++ ")" := by
  rw [tailText_eq, items_ofList, final_ofList, endText, String.append_empty]

theorem toScheme_ofList_cons (d : Datum) (ds : List Datum) :
    (ofList (d :: ds)).toScheme = "(" ++ d.toScheme ++ leadWith " " (ds.map toScheme) ++ ")" := by
  rw [ofList_cons, toScheme, tailText_ofList]
  simp only [String.append_assoc]

theorem toScheme_headed (keyword : String) (ds : List Datum) :
    (headed keyword ds).toScheme = "(" ++ keyword ++ leadWith " " (ds.map toScheme) ++ ")" :=
  toScheme_ofList_cons (.symbol keyword) ds

/-- The text of any list, also of the empty one. -/
theorem toScheme_ofList (ds : List Datum) :
    (ofList ds).toScheme = "(" ++ joinWith " " (ds.map toScheme) ++ ")" := by
  cases ds with
  | nil => rfl
  | cons d ds =>
      rw [toScheme_ofList_cons, List.map_cons, joinWith_cons_eq_append]
      simp only [String.append_assoc]

end Datum

/-! ## The text of quoted code -/

namespace Expr

/-- The quoted data in the expression is written in full. -/
def WritesInFull (quotation : Datum → String) (e : Expr) : Prop :=
  ∀ d, (literal d).Occurs e → quotation d = SchemeText.inFull d

variable {quotation : Datum → String}

theorem WritesInFull.of_mem_parts {e c : Expr} (h : e.WritesInFull quotation) (hc : c ∈ e.parts) :
    c.WritesInFull quotation := by
  intro d hd
  exact h d (.inside hc hd)

theorem schemeTextsWith_of_quoteCodes {es : List Expr} {ds : List Datum}
    (ih : ∀ e ∈ es, ∀ d, e.quoteCode = .ok d → d.toScheme = e.schemeWith quotation)
    (h : quoteCodes es = .ok ds) : ds.map Datum.toScheme = schemeTextsWith quotation es := by
  have htexts := forall₂_imp_of_mem ih (quoteCodes_inOrder.eq_ok_iff.1 h)
  clear h ih
  induction htexts with
  | nil => rfl
  | cons hd _ ih => rw [List.map_cons, schemeTextsWith, hd, ih]

theorem bindingTextsWith_of_quoteBindings {bs : List (Binding Expr)} {ds : List Datum}
    (ih : ∀ b ∈ bs, ∀ d, b.value.quoteCode = .ok d → d.toScheme = b.value.schemeWith quotation)
    (h : quoteBindings bs = .ok ds) : ds.map Datum.toScheme = bindingTextsWith quotation bs := by
  have htexts : List.Forall₂ (fun b d => d.toScheme
      = "(" ++ b.name ++ " " ++ b.value.schemeWith quotation ++ ")") bs ds := by
    refine forall₂_imp_of_mem (fun b hb d hd => ?_) (quoteBindings_inOrder.eq_ok_iff.1 h)
    obtain ⟨value, hvalue, rfl⟩ := map_eq_ok.1 hd
    rw [Datum.toScheme_ofList, ← ih b hb value hvalue]
    simp [joinWith, Datum.toScheme, Datum.atomText, String.append_assoc]
  clear h ih
  induction htexts with
  | nil => rfl
  | cons hd _ ih => rw [List.map_cons, bindingTextsWith, hd, ih]

/-- **The text of quoted code is the text of the code**, if quoted data in it is written in full. -/
theorem toScheme_of_quoteCode {e : Expr} {d : Datum} (h : e.quoteCode = .ok d)
    (hq : e.WritesInFull quotation) : d.toScheme = e.schemeWith quotation := by
  induction e using Expr.induction generalizing d with
  | leaf e he =>
      cases e with
      | number _ | bool _ | str _ | var _ | prim _ =>
          cases h
          rfl
      | literal v =>
          -- the one place where it matters how quoted data is written
          cases h
          rw [schemeWith, hq v .here]
          rfl
      | cond | lambda | app | letIn | dict => cases he
  | cond test yes no iht ihy ihn =>
      simp only [quoteCode, bind_eq_ok] at h
      obtain ⟨t, ht, y, hy, n, hn, h⟩ := h
      cases h
      have hopen : "(if " = "(" ++ "if" ++ " " := rfl
      rw [Datum.toScheme_headed, schemeWith, ← iht ht (hq.of_mem_parts (by simp [parts])),
        ← ihy hy (hq.of_mem_parts (by simp [parts])), ← ihn hn (hq.of_mem_parts (by simp [parts])),
        hopen]
      simp only [List.map_cons, List.map_nil, leadWith, String.append_assoc, String.empty_append]
  | lambda params body ih =>
      simp only [quoteCode, bind_eq_ok] at h
      obtain ⟨ds, hds, h⟩ := h
      cases h
      have hopen : "(lambda (" = "(" ++ "lambda" ++ " " ++ "(" := rfl
      have hbody := schemeTextsWith_of_quoteCodes
        (fun e he d hd => ih e he hd (hq.of_mem_parts he)) hds
      have hparams : (params.map Datum.symbol).map Datum.toScheme = params := by
        rw [List.map_map]
        exact List.map_id params
      rw [Datum.toScheme_headed, schemeWith, List.map_cons, leadWith, hbody, Datum.toScheme_ofList,
        hparams, hopen]
      simp only [String.append_assoc]
  | app operator operands ihf ih =>
      simp only [quoteCode, bind_eq_ok] at h
      obtain ⟨f, hf, ds, hds, h⟩ := h
      cases h
      have hoperands := schemeTextsWith_of_quoteCodes
        (fun e he d hd => ih e he hd (hq.of_mem_parts (List.mem_cons_of_mem operator he))) hds
      rw [Datum.toScheme_ofList_cons, schemeWith, hoperands,
        ihf hf (hq.of_mem_parts List.mem_cons_self)]
  | letIn bindings body ihd ih =>
      simp only [quoteCode, bind_eq_ok] at h
      obtain ⟨bs, hbs, ds, hds, h⟩ := h
      cases h
      have hopen : "(let (" = "(" ++ "let" ++ " " ++ "(" := rfl
      have hvalues := bindingTextsWith_of_quoteBindings (fun b hb d hd => ihd b hb hd
        (hq.of_mem_parts (List.mem_append_left _ (List.mem_map_of_mem hb)))) hbs
      have hbody := schemeTextsWith_of_quoteCodes
        (fun e he d hd => ih e he hd (hq.of_mem_parts (List.mem_append_right _ he))) hds
      rw [Datum.toScheme_headed, schemeWith, List.map_cons, leadWith, hbody, Datum.toScheme_ofList,
        hvalues, hopen]
      simp only [String.append_assoc]
  | dict entries _ => cases h

end Expr

/-! ## The main statement -/

/-- **Quoted code prints as the code that it quotes.** An expression without a dictionary literal
that is not itself quoted data can be quoted, and the text of the result is that of the expression
with the quoted data in it written in full. If there is none, it is the text of the expression.

Here the text of an expression with the writing of quoted data left open is what `schemeWith` gives:
with the apostrophe, it is the text of the expression. -/
theorem quoted_code_prints_as_code {e : Expr} (hdict : e.hasDict = false)
    (hcode : ∀ v, e ≠ .literal v) :
    (∃ d, e.quote = .ok d
      ∧ d.toScheme = e.schemeWith SchemeText.inFull
      ∧ ((∀ v, ¬ (Expr.literal v).Occurs e) → d.toScheme = e.toScheme))
    ∧ ∀ e' : Expr, e'.schemeWith SchemeText.apostrophe = e'.toScheme := by
  refine ⟨?_, Expr.schemeWith_apostrophe⟩
  obtain ⟨d, hd⟩ := (Expr.exists_quote_iff e).2 hdict
  have hquote : e.quoteCode = .ok d := by
    rw [← Expr.quote_eq_quoteCode hcode]
    exact hd
  refine ⟨d, hd, Expr.toScheme_of_quoteCode hquote fun _ _ => rfl, ?_⟩
  intro hfree
  rw [← Expr.schemeWith_apostrophe]
  apply Expr.toScheme_of_quoteCode hquote
  intro v hv
  exact absurd hv (hfree v)

/-- A call without operands, a procedure and a `let` that are empty, and quoted data in an operand
beside a string that looks like the end of a list. -/
def hollowCall : Expr :=
  .app (.app (.lambda [] []) []) [.letIn [] [], .literal (.symbol "a"), .str ")"]

/-- Nothing is lost or added where a sequence is empty. -/
theorem quoted_code_prints_as_code_hollow :
    ∃ d, hollowCall.quote = .ok d
      ∧ d.toScheme = "(((lambda ())) (let ()) (quote a) \")\")"
      ∧ hollowCall.toScheme = "(((lambda ())) (let ()) 'a \")\")" := by
  have hcode : ∀ v, hollowCall ≠ .literal v := by
    intro v h
    cases h
  obtain ⟨⟨d, hd, htext, _⟩, hwith⟩ := quoted_code_prints_as_code (e := hollowCall) rfl hcode
  refine ⟨d, hd, ?_, ?_⟩
  · rw [htext]
    rfl
  · rw [← hwith hollowCall]
    rfl

end L32
