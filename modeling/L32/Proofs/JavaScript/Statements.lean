import L32.Proofs.JavaScript.Desugared
import L32.Proofs.JavaScript.Literals
import L32.Proofs.JavaScript.Strings
import L32.Proofs.Scheme.Lines

set_option autoImplicit false

/-! # The statements of a JavaScript text

The text of a program holds one statement per form, with a semicolon and a line break between each
two of them. Semicolons also stand inside procedures with several expressions, in names and in string
literals, but line breaks do not: a name is written as it is, a string shows its line breaks as
escapes, and nothing else that is written has one (`oneLine_of_unparse`). So a separator is found
where one was put, and nowhere else.

Texts that are joined are found again by splitting, if no separator begins inside one of them
(`split_joinWith`). Where the separator is a semicolon and a line break, texts on one line are such
(`unbroken_of_oneLine`). The main statement is `program_text_splits_into_forms`. -/

namespace L32

open JavaScript

/-! ## Splitting what was joined -/

/-- No separator begins inside the text, also if a separator follows the text. -/
def Unbroken (separator t : String) : Prop :=
  ∀ front back, t = front ++ back → back ≠ "" → ∀ rest rest',
    back ++ separator ++ rest ≠ separator ++ rest'

section Splitting

open String.Slice (Pos)
open String.Slice.Pattern

variable {separator : String} {s : String.Slice}

/-- A search that starts in front of an unbroken text finds no separator before the end of it, if
nothing or a separator stands there. -/
theorem not_matchesAt_of_unbroken {t front rest : String} (ht : Unbroken separator t) {p q : s.Pos}
    (hp : p.Splits front (t ++ rest)) (hq : q.Splits (front ++ t) rest)
    (hrest : rest = "" ∨ ∃ rest', rest = separator ++ rest') {r : s.Pos} (hpr : p ≤ r)
    (hrq : r < q) : ¬ Model.MatchesAt separator r := by
  rw [Model.ForwardStringSearcher.matchesAt_iff_splits]
  rintro ⟨before, behind, hr⟩
  -- the place cuts the text in two, and the second part is not empty
  obtain ⟨u, hu, _⟩ := (hp.le_iff_exists_eq_append hr).1 hpr
  obtain ⟨v, hv, hcut, hfound⟩ := (hr.lt_iff_exists_eq_append hq).1 hrq
  have htext : t = u ++ v := by
    rw [hu, String.append_assoc] at hcut
    exact (String.append_right_inj front).1 hcut
  rcases hrest with rfl | ⟨rest', rfl⟩
  · apply ht u v htext hv "" (behind ++ separator)
    rw [← String.append_assoc, hfound]
    simp only [String.append_empty]
  · apply ht u v htext hv rest' behind
    rw [hfound, String.append_assoc]

/-- What stands between two places. -/
theorem copy_subslice_of_splits {t front rest : String} {p q : s.Pos}
    (hp : p.Splits front (t ++ rest)) (hq : q.Splits (front ++ t) rest) (hpq : p ≤ q) :
    (s.subslice p q hpq).toSlice.copy = t := by
  obtain ⟨_, hcopy⟩ := String.Slice.copy_slice_eq_iff_splits.2 ⟨front, rest, hp, hq⟩
  rw [String.Slice.toSlice_subslice]
  exact hcopy

/-- Splitting from a place in front of which everything has been dealt with. The induction is on the
texts: each step passes one of them and the separator behind it. -/
theorem map_copy_split_of_splits [Model.StrictPatternModel separator] {ts : List String}
    (hne : ts ≠ []) (h : ∀ t ∈ ts, Unbroken separator t) {p : s.Pos} {front : String}
    (hp : p.Splits front (joinWith separator ts)) :
    (Model.split separator p p (Std.le_refl p)).map (fun piece => piece.toSlice.copy) = ts := by
  induction ts generalizing p front with
  | nil => exact absurd rfl hne
  | cons t ts ih =>
      obtain ⟨ht, hts⟩ := List.forall_mem_cons.1 h
      cases ts with
      | nil =>
          have hstart : p.Splits front (t ++ "") := by rwa [String.append_empty]
          have hend : s.endPos.Splits (front ++ t) "" :=
            String.Slice.splits_endPos_iff.2 ⟨hp.eq_append.symm, rfl⟩
          rw [Model.split_eq_of_not_matchesAt s.endPos (Pos.le_endPos p) fun r hpr hr =>
              not_matchesAt_of_unbroken ht hstart hend (.inl rfl) hpr hr,
            Model.split_endPos, List.map_singleton, copy_subslice_of_splits hstart hend]
      | cons u us =>
          rw [joinWith, String.append_assoc] at hp
          have hend := Pos.splits_ofEqAppend (hp.eq_append.trans String.append_assoc.symm)
          have hnext := Pos.splits_ofEqAppend (hend.eq_append.trans String.append_assoc.symm)
          have hle := (hp.le_iff_exists_eq_append hend).2 ⟨t, rfl, rfl⟩
          have hfound :=
            Model.ForwardStringSearcher.isLongestMatchAt_iff_splits.2 ⟨_, _, hend, hnext⟩
          rw [Model.split_eq_of_not_matchesAt _ hle fun r hpr hr =>
              not_matchesAt_of_unbroken ht hp hend (.inr ⟨_, rfl⟩) hpr hr,
            Model.split_eq_of_isLongestMatchAt hfound, List.map_cons,
            copy_subslice_of_splits hp hend, ih (List.cons_ne_nil u us) hts hnext]

/-- **Texts that are joined are found again by splitting**, if no separator begins inside one of
them. -/
theorem split_joinWith (hseparator : separator ≠ "") {ts : List String} (hne : ts ≠ [])
    (h : ∀ t ∈ ts, Unbroken separator t) :
    ((joinWith separator ts).split separator).toList.map String.Slice.copy = ts := by
  have := Model.ForwardStringSearcher.strictPatternModel hseparator
  have := Model.ForwardStringSearcher.lawfulToForwardSearcherModel hseparator
  rw [String.split_eq_split_toSlice, String.Slice.toList_split_eq_splitToSubslice,
    toList_splitToSubslice_eq_modelSplit, List.map_map]
  have hstart : (joinWith separator ts).toSlice.startPos.Splits "" (joinWith separator ts) := by
    rw [String.Slice.splits_startPos_iff, String.copy_toSlice]
    exact ⟨rfl, rfl⟩
  exact map_copy_split_of_splits hne h hstart

end Splitting

/-- A separator that begins inside a text on one line would have its line break in the text, or in
the place of the semicolon behind it. -/
theorem unbroken_of_oneLine {t : String} (h : OneLine t) : Unbroken ";\n" t := by
  rintro front back rfl hback rest rest' heq
  have hline : '\n' ∉ back.toList := (oneLine_append.1 h).2
  have hseparator : ";\n".toList = [';', '\n'] := rfl
  have hchars := congrArg String.toList heq
  simp only [String.toList_append, hseparator] at hchars
  cases hcs : back.toList with
  | nil => exact hback (String.toList_eq_nil_iff.1 hcs)
  | cons c cs =>
      rw [hcs] at hline hchars
      have htail := (List.cons.inj hchars).2
      cases cs with
      | nil => exact absurd (List.cons.inj htail).1 (by decide)
      | cons d ds =>
          have hbreak : d = '\n' := (List.cons.inj htail).1
          exact hline (by simp [hbreak])

/-! ## The names that are written -/

namespace Expr

/-- The names that stand in an expression itself, and not in its parts: variables, operators and
parameters. -/
def codeNames : Expr → List String
  | var name | prim name => [name]
  | lambda params _ => params
  | _ => []

/-- All variables, operators and parameters in it, at any depth, satisfy `P`. -/
def AllCodeNames (P : String → Prop) (e : Expr) : Prop :=
  ∀ c : Expr, c.Occurs e → ∀ name ∈ c.codeNames, P name

theorem allCodeNames_iff {P : String → Prop} {e : Expr} :
    e.AllCodeNames P ↔ (∀ name ∈ e.codeNames, P name) ∧ ∀ c ∈ e.parts, c.AllCodeNames P :=
  forall_occurs_iff

end Expr

def Form.AllCodeNames (P : String → Prop) : Form → Prop
  | .define name value => P name ∧ value.AllCodeNames P
  | .expr value => value.AllCodeNames P

/-! ## Every text stands on one line -/

namespace JavaScript

theorem oneLine_numberText (x : Float) : OneLine (numberText x) := by
  have hbreak : '\n' ∉ numberChars := by decide
  exact fun h => hbreak (mem_numberChars h)

theorem oneLine_boolText (b : Bool) : OneLine (boolText b) := by
  cases b <;> decide

/-- A line break is a control character, and those are written by escapes. -/
theorem oneLine_stringText (s : String) : OneLine (stringText s) := by
  refine oneLine_append.2 ⟨oneLine_append.2 ⟨by decide, ?_⟩, by decide⟩
  rw [escapeWith, oneLine_ofList, List.mem_flatMap]
  rintro ⟨c, _, hc⟩
  exact absurd (isControl_of_mem_escape hc) (by decide)

theorem oneLine_operatorToken {name : String} (h : OneLine name) :
    OneLine (operatorToken name) := by
  unfold operatorToken
  split
  iterate 5
    decide
  exact h

theorem oneLine_parenthesized {t : String} (h : OneLine t) : OneLine ("(" ++ t ++ ")") :=
  oneLine_append.2 ⟨oneLine_append.2 ⟨by decide, h⟩, by decide⟩

theorem oneLine_callText {callee : String} {ts : List String} (hcallee : OneLine callee)
    (hts : ∀ t ∈ ts, OneLine t) : OneLine (callText callee ts) := by
  have hjoined : OneLine (joinWith "," ts) := (oneLine_joinWith (by decide)).2 hts
  have htext : callText callee ts = callee ++ ("(" ++ joinWith "," ts ++ ")") := by
    simp only [callText, String.append_assoc]
  rw [htext]
  exact oneLine_append.2 ⟨hcallee, oneLine_parenthesized hjoined⟩

theorem oneLine_bodyText {ts : List String} (hts : ∀ t ∈ ts, OneLine t) :
    OneLine (bodyText ts) := by
  unfold bodyText
  split
  · exact hts _ List.mem_cons_self
  · exact oneLine_parenthesized ((oneLine_joinWith (by decide)).2 hts)

theorem oneLine_lambdaText {params ts : List String} (hparams : ∀ name ∈ params, OneLine name)
    (hts : ∀ t ∈ ts, OneLine t) : OneLine (lambdaText params ts) := by
  have hjoined : OneLine (joinWith "," params) := (oneLine_joinWith (by decide)).2 hparams
  have hopen : OneLine "((" := by decide
  have harrow : OneLine ") => " := by decide
  have hclose : OneLine ")" := by decide
  simp only [lambdaText, oneLine_append, hopen, hjoined, harrow, oneLine_bodyText hts, hclose,
    and_self]

theorem oneLine_condText {t₁ t₂ t₃ : String} (h₁ : OneLine t₁) (h₂ : OneLine t₂)
    (h₃ : OneLine t₃) : OneLine (condText t₁ t₂ t₃) := by
  have hopen : OneLine "(" := by decide
  have hquestion : OneLine " ? " := by decide
  have hcolon : OneLine " : " := by decide
  have hclose : OneLine ")" := by decide
  simp only [condText, oneLine_append, hopen, h₁, hquestion, h₂, hcolon, h₃, hclose, and_self]

/-- The words of its own that an operator puts between its operands. -/
def Operator.words : Operator → List String
  | chain symbol => [symbol]
  | typeTest type => [type]
  | equality | negation => []

theorem oneLine_of_mem_words {name : String} {operator : Operator}
    (h : operator? name = some operator) : ∀ word ∈ operator.words, OneLine word := by
  unfold operator? at h
  split at h <;> cases h <;> decide

theorem oneLine_write? {operator : Operator} (hwords : ∀ word ∈ operator.words, OneLine word)
    {ts : List String} (hts : ∀ t ∈ ts, OneLine t) {t : String} (h : operator.write? ts = some t) :
    OneLine t := by
  unfold Operator.write? at h
  split at h
  · rename_i symbol t u ts
    cases h
    have hblank : OneLine " " := by decide
    have hsymbol : OneLine symbol := hwords symbol List.mem_cons_self
    refine (oneLine_joinWith ?_).2 hts
    simp only [oneLine_append, hblank, hsymbol, and_self]
  · rename_i t u ts
    cases h
    have hequals : OneLine " === " := by decide
    simp only [List.forall_mem_cons] at hts
    simp only [oneLine_append, hts, hequals, and_self]
  · rename_i t ts
    cases h
    have hnot : OneLine "!" := by decide
    simp only [List.forall_mem_cons] at hts
    simp only [oneLine_append, hts, hnot, and_self]
  · rename_i type t ts
    cases h
    have htypeof : OneLine "typeof " := by decide
    have hequals : OneLine " === '" := by decide
    have hquote : OneLine "'" := by decide
    have htype : OneLine type := hwords type List.mem_cons_self
    simp only [List.forall_mem_cons] at hts
    simp only [oneLine_append, hts, htypeof, hequals, htype, hquote, and_self]
  · cases h

theorem oneLine_wrap {t : String} (h : OneLine t) (place : Place) : OneLine (place.wrap t) := by
  cases place with
  | alone => exact oneLine_parenthesized h
  | part => exact h

end JavaScript

theorem oneLine_of_haveTexts {es : List Expr} {ts : List String}
    (ih : ∀ e ∈ es, ∀ place t, e.unparse place = .ok t → OneLine t) (hts : Expr.HaveTexts es ts) :
    ∀ t ∈ ts, OneLine t := by
  intro t ht
  obtain ⟨e, he, h⟩ := exists_mem_left_of_forall₂ hts ht
  exact ih e he .alone t h

/-- **The JavaScript text of an expression stands on one line**, if the names in it do. -/
theorem oneLine_of_unparse (e : Expr) :
    e.AllCodeNames OneLine → ∀ place t, e.unparse place = .ok t → OneLine t := by
  induction e using Expr.parts_induction with
  | step e ih =>
      intro hnames place t h
      obtain ⟨hown, hparts⟩ := Expr.allCodeNames_iff.1 hnames
      replace ih : ∀ c ∈ e.parts, ∀ place t, c.unparse place = .ok t → OneLine t :=
        fun c hc => ih c hc (hparts c hc)
      cases hasText_of_unparse h with
      | number x => exact oneLine_numberText x
      | bool b => exact oneLine_boolText b
      | str s => exact oneLine_stringText s
      | var name => exact hown t List.mem_cons_self
      | prim name => exact oneLine_operatorToken (hown name List.mem_cons_self)
      | cond htest hyes hno =>
          simp only [Expr.parts, List.forall_mem_cons] at ih
          exact oneLine_condText (ih.1 .part _ htest) (ih.2.1 .part _ hyes) (ih.2.2.1 .part _ hno)
      | lambda params hbody => exact oneLine_lambdaText hown (oneLine_of_haveTexts ih hbody)
      | call hprim hcallee hoperands =>
          obtain ⟨ihf, iha⟩ := List.forall_mem_cons.1 ih
          exact oneLine_callText (ihf .alone _ hcallee) (oneLine_of_haveTexts iha hoperands)
      | primCall hoperator hoperands =>
          -- the operator is written by its name, and not by the token that it has on its own
          obtain ⟨hprim, _⟩ := List.forall_mem_cons.1 hparts
          have hname := (Expr.allCodeNames_iff.1 hprim).1 _ List.mem_cons_self
          exact oneLine_callText hname
            (oneLine_of_haveTexts (List.forall_mem_cons.1 ih).2 hoperands)
      | operation hoperator hoperands hwrite =>
          have htexts := oneLine_of_haveTexts (List.forall_mem_cons.1 ih).2 hoperands
          exact oneLine_wrap (oneLine_write? (oneLine_of_mem_words hoperator) htexts hwrite) place

/-- The same for a form, with the name that it defines. -/
theorem Form.oneLine_of_toJavaScript {f : Form} (hnames : f.AllCodeNames OneLine) {t : String}
    (h : f.toJavaScript = .ok t) : OneLine t := by
  cases f with
  | define name value =>
      obtain ⟨u, hu, htext⟩ := bind_eq_ok.1 h
      cases htext
      have hconst : OneLine "const " := by decide
      have hequals : OneLine " = " := by decide
      have hvalue := oneLine_of_unparse value hnames.2 .alone u hu
      simp only [oneLine_append, hconst, hnames.1, hequals, hvalue, and_self]
  | expr value => exact oneLine_of_unparse value hnames .alone t h

/-! ## The main statement -/

/-- **The text of a program splits into the texts of its forms.** Let there be a form, and no line
break in a name that is defined, a variable, a parameter or an operator. Then splitting the text at
every semicolon that a line break follows gives the texts of the forms, one for each and in
order. -/
theorem program_text_splits_into_forms {p : Program} {t : String} (hforms : p.forms ≠ [])
    (hnames : ∀ f ∈ p.forms, f.AllCodeNames OneLine) (h : p.toJavaScript = .ok t) :
    List.Forall₂ (fun f u => f.toJavaScript = .ok u) p.forms
      ((t.split ";\n").toList.map String.Slice.copy) := by
  obtain ⟨ts, hts, htext⟩ := bind_eq_ok.1 h
  cases htext
  replace hts := Form.javaScriptTexts_inOrder.eq_ok_iff.1 hts
  have hne : ts ≠ [] := by
    intro hnil
    rw [hnil, List.forall₂_nil_right_iff] at hts
    exact hforms hts
  have hlines : ∀ u ∈ ts, Unbroken ";\n" u := by
    intro u hu
    obtain ⟨f, hf, hfu⟩ := exists_mem_left_of_forall₂ hts hu
    exact unbroken_of_oneLine (f.oneLine_of_toJavaScript (hnames f hf) hfu)
  rwa [split_joinWith (by decide) hne hlines]

/-- A procedure with two expressions, of which the second is a string of a semicolon and a line
break, and a variable whose name ends in a semicolon. -/
theorem program_text_splits_into_forms_semicolons :
    ∃ t, (Program.mk [.define "f" (.lambda ["x"] [.var "x", .str ";\n"]), .expr (.var "a;"),
        .expr (.app (.var "f") [.bool true])]).toJavaScript = .ok t
      ∧ (t.split ";\n").toList.map String.Slice.copy
        = ["const f = ((x) => (x ; \";\\n\"))", "a;", "f(true)"] := by
  have hvar : ∀ name, OneLine name → (Expr.var name).AllCodeNames OneLine := fun name hname =>
    Expr.allCodeNames_iff.2 ⟨List.forall_mem_singleton.2 hname, nofun⟩
  have hatom : ∀ e : Expr, e.codeNames = [] → e.parts = [] → e.AllCodeNames OneLine := by
    intro e hnames hparts
    rw [Expr.allCodeNames_iff, hnames, hparts]
    exact ⟨nofun, nofun⟩
  have hlambda : (Expr.lambda ["x"] [.var "x", .str ";\n"]).AllCodeNames OneLine :=
    Expr.allCodeNames_iff.2 ⟨by decide, List.forall_mem_cons.2
      ⟨hvar "x" (by decide), List.forall_mem_singleton.2 (hatom _ rfl rfl)⟩⟩
  have hcall : (Expr.app (.var "f") [.bool true]).AllCodeNames OneLine :=
    Expr.allCodeNames_iff.2 ⟨nofun, List.forall_mem_cons.2
      ⟨hvar "f" (by decide), List.forall_mem_singleton.2 (hatom _ rfl rfl)⟩⟩
  refine ⟨_, rfl, ?_⟩
  have hsplit := program_text_splits_into_forms
    (p := ⟨[.define "f" (.lambda ["x"] [.var "x", .str ";\n"]), .expr (.var "a;"),
      .expr (.app (.var "f") [.bool true])]⟩) (List.cons_ne_nil _ _)
    (List.forall_mem_cons.2 ⟨⟨by decide, hlambda⟩, List.forall_mem_cons.2
      ⟨hvar "a;" (by decide), List.forall_mem_singleton.2 hcall⟩⟩) rfl
  generalize List.map String.Slice.copy _ = us at hsplit ⊢
  rcases hsplit with _ | ⟨h₁, _ | ⟨h₂, _ | ⟨h₃, _ | _⟩⟩⟩
  cases h₁
  cases h₂
  cases h₃
  rfl

end L32
