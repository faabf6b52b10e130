import L32.Proofs.Atoms

set_option autoImplicit false

/-! # Scheme text on one line

The Scheme text of a form stands on one line exactly if no name in it holds a line break, because a
name is written as it is and everything else is written without one: numbers have digits, a sign and
a point, and strings show their line breaks as escapes. `oneLine_toScheme_iff` says so for data,
`Expr.oneLine_toScheme_iff` for expressions and `Form.oneLine_toScheme_iff` for forms.

Texts that stand on one line each, with a line break after each of them, are the lines of the whole
(`splitOn_lines`). -/

namespace L32

def OneLine (s : String) : Prop :=
  '\n' ∉ s.toList

instance (s : String) : Decidable (OneLine s) :=
  inferInstanceAs (Decidable ('\n' ∉ s.toList))

@[simp] theorem oneLine_empty : OneLine "" := by decide

@[simp] theorem oneLine_append {s t : String} : OneLine (s ++ t) ↔ OneLine s ∧ OneLine t := by
  simp [OneLine, String.toList_append]

theorem oneLine_ofList {cs : List Char} : OneLine (String.ofList cs) ↔ '\n' ∉ cs := by
  rw [OneLine, String.toList_ofList]

theorem oneLine_joinWith {separator : String} (hseparator : OneLine separator)
    {ts : List String} : OneLine (joinWith separator ts) ↔ ∀ t ∈ ts, OneLine t := by
  induction ts with
  | nil => simp [joinWith]
  | cons t ts ih =>
      cases ts with
      | nil => simp [joinWith]
      | cons u us =>
          rw [joinWith, oneLine_append, oneLine_append, ih]
          simp [hseparator]

theorem oneLine_leadWith {separator : String} (hseparator : OneLine separator)
    {ts : List String} : OneLine (leadWith separator ts) ↔ ∀ t ∈ ts, OneLine t := by
  induction ts with
  | nil => simp [leadWith]
  | cons t ts ih =>
      rw [leadWith, oneLine_append, oneLine_append, ih]
      simp [hseparator]

/-- Joined texts are the first of them, and each of the others behind a separator. -/
theorem joinWith_cons_eq_append (separator t : String) (ts : List String) :
    joinWith separator (t :: ts) = t ++ leadWith separator ts := by
  induction ts generalizing t with
  | nil => rw [joinWith, leadWith, String.append_empty]
  | cons u us ih =>
      rw [joinWith, ih, leadWith]
      simp only [String.append_assoc]

/-- Lines with a line break after each of them are found again. Nothing stands behind the last. -/
theorem splitOn_lines (ts : List String) (h : ∀ t ∈ ts, OneLine t) :
    (String.join (ts.map (· ++ "\n"))).toList.splitOn '\n' = ts.map String.toList ++ [[]] := by
  rw [String.toList_join, List.flatMap_map]
  induction ts with
  | nil => rfl
  | cons t ts ih =>
      obtain ⟨ht, hts⟩ := List.forall_mem_cons.1 h
      have hbreak : "\n".toList = ['\n'] := rfl
      rw [List.flatMap_cons, String.toList_append, hbreak, List.append_assoc, List.singleton_append,
        List.splitOn_append_cons_self_of_not_mem ht, ih hts, List.map_cons, List.cons_append]

/-! ## Atoms -/

namespace SchemeText

/-- The characters of which finite numbers are made. -/
def plainChars : List Char :=
  ['-', '.', '0', '1', '2', '3', '4', '5', '6', '7', '8', '9']

/-- The characters of which all numbers are made, with the letters of `NaN` and `inf`. -/
def numberChars : List Char :=
  plainChars ++ ['N', 'a', 'i', 'n', 'f']

theorem mem_plainChars_of_mem_digitText {ds : List Digit} {c : Char}
    (h : c ∈ (digitText ds).toList) : c ∈ plainChars := by
  have hdigit : ∀ d : Digit, d.toChar ∈ plainChars := by decide
  rw [digitText, String.toList_ofList, List.mem_map] at h
  obtain ⟨d, _, rfl⟩ := h
  exact hdigit d

theorem mem_plainChars {d : Decimal} {c : Char} (h : c ∈ d.plain.toList) : c ∈ plainChars := by
  rw [Decimal.plain, String.toList_append, List.mem_append] at h
  rcases h with hsign | hpointed
  · have hsigns : d.signText.toList ⊆ plainChars := by
      unfold Decimal.signText
      split <;> decide
    exact hsigns hsign
  · unfold Decimal.pointed at hpointed
    split at hpointed
    · exact mem_plainChars_of_mem_digitText hpointed
    · rw [String.toList_append, String.toList_append, List.mem_append, List.mem_append] at hpointed
      rcases hpointed with (hfront | hpoint) | hback
      · exact mem_plainChars_of_mem_digitText hfront
      · rw [List.mem_singleton.1 hpoint]
        decide
      · exact mem_plainChars_of_mem_digitText hback

theorem mem_numberChars {x : Float} {c : Char} (h : c ∈ (ofNumber x).toList) :
    c ∈ numberChars := by
  have hnan : "NaN".toList ⊆ numberChars := by decide
  have hinf : "inf".toList ⊆ numberChars := by decide
  have hminus : "-inf".toList ⊆ numberChars := by decide
  unfold ofNumber at h
  split at h
  · exact hnan h
  · split at h
    · exact hminus h
    · exact hinf h
  · exact List.mem_append_left _ (mem_plainChars h)

theorem oneLine_ofNumber (x : Float) : OneLine (ofNumber x) := by
  intro h
  have hbreak : '\n' ∉ numberChars := by decide
  exact hbreak (mem_numberChars h)

theorem oneLine_ofBool (b : Bool) : OneLine (ofBool b) := by
  cases b <;> decide

/-- The escape of a line break is the letter `n`, and no other escape holds a line break. -/
theorem newline_not_mem_escape (c : Char) : '\n' ∉ escape c := by
  unfold escape
  split
  · decide
  · decide
  · decide
  · decide
  · decide
  · rename_i hbreak _ _
    exact fun h => hbreak (List.mem_singleton.1 h).symm

theorem oneLine_ofString (s : String) : OneLine (ofString s) := by
  refine oneLine_append.2 ⟨oneLine_append.2 ⟨by decide, ?_⟩, by decide⟩
  rw [escapeWith, oneLine_ofList, List.mem_flatMap]
  rintro ⟨c, _, hc⟩
  exact newline_not_mem_escape c hc

end SchemeText

/-! ## Data -/

namespace Datum

/-- The text of an atom stands on one line, unless it is a name that does not. -/
theorem oneLine_atomText_iff (d : Datum) : OneLine d.atomText ↔ d.Named OneLine := by
  cases d with
  | symbol name => exact Iff.rfl
  | number x => exact iff_of_true (SchemeText.oneLine_ofNumber x) trivial
  | bool b => exact iff_of_true (SchemeText.oneLine_ofBool b) trivial
  | str s => exact iff_of_true (SchemeText.oneLine_ofString s) trivial
  | pair _ _ | empty => exact iff_of_true (show OneLine "()" by decide) trivial

/-- The text of a value, alone and behind the first member of a chain. -/
theorem oneLine_toScheme_and_tailText (d : Datum) :
    (OneLine d.toScheme ↔ d.AllAtoms (Named OneLine))
      ∧ (OneLine d.tailText ↔ d.AllAtoms (Named OneLine)) := by
  have hopen : OneLine "(" := by decide
  have hclose : OneLine ")" := by decide
  have hblank : OneLine " " := by decide
  have hdot : OneLine " . " := by decide
  induction d with
  | pair h t ihh iht =>
      rw [toScheme, tailText, allAtoms_pair]
      simp [hopen, hblank, ihh.1, iht.2]
  | empty => exact ⟨iff_of_true (by decide) (by simp [AllAtoms, atoms]),
      iff_of_true hclose (by simp [AllAtoms, atoms])⟩
  | symbol _ | number _ | bool _ | str _ =>
      simp [toScheme, tailText, hdot, hclose, oneLine_atomText_iff, AllAtoms, atoms]

theorem oneLine_toScheme_iff {d : Datum} : OneLine d.toScheme ↔ d.AllAtoms (Named OneLine) :=
  (oneLine_toScheme_and_tailText d).1

end Datum

/-! ## Expressions and forms -/

namespace Expr

theorem schemeTexts_eq_map (es : List Expr) : schemeTexts es = es.map toScheme := by
  induction es with
  | nil => rfl
  | cons e es ih => rw [schemeTexts, ih, List.map_cons]

theorem bindingTexts_eq_map (bs : List (Binding Expr)) :
    bindingTexts bs = bs.map fun b => "(" ++ b.name ++ " " ++ b.value.toScheme ++ ")" := by
  induction bs with
  | nil => rfl
  | cons b bs ih => rw [bindingTexts, ih, List.map_cons]

theorem entryTexts_eq_map (xs : List (Entry Expr)) :
    entryTexts xs = xs.map fun x => "(" ++ x.key.toScheme ++ " " ++ x.value.toScheme ++ ")" := by
  induction xs with
  | nil => rfl
  | cons x xs ih => rw [entryTexts, ih, List.map_cons]

theorem oneLine_leadWith_schemeTexts {es : List Expr}
    (ih : ∀ e ∈ es, (OneLine e.toScheme ↔ e.AllAtoms (Datum.Named OneLine))) :
    OneLine (leadWith " " (schemeTexts es)) ↔ ∀ e ∈ es, e.AllAtoms (Datum.Named OneLine) := by
  rw [oneLine_leadWith (by decide), schemeTexts_eq_map, List.forall_mem_map]
  exact forall₂_congr ih

/-- **The text of an expression stands on one line** exactly if each name in it does. -/
theorem oneLine_toScheme_iff {e : Expr} :
    OneLine e.toScheme ↔ e.AllAtoms (Datum.Named OneLine) := by
  have hopen : OneLine "(" := by decide
  have hclose : OneLine ")" := by decide
  have hblank : OneLine " " := by decide
  induction e using Expr.induction with
  | leaf e he =>
      cases e with
      | number x => exact (Datum.oneLine_atomText_iff (.number x)).trans allAtoms_number.symm
      | bool b => exact (Datum.oneLine_atomText_iff (.bool b)).trans allAtoms_bool.symm
      | str s => exact (Datum.oneLine_atomText_iff (.str s)).trans allAtoms_str.symm
      | var name => exact (Datum.oneLine_atomText_iff (.symbol name)).trans allAtoms_var.symm
      | prim name => exact (Datum.oneLine_atomText_iff (.symbol name)).trans allAtoms_prim.symm
      | literal d =>
          have hquote : OneLine "'" := by decide
          simp [toScheme, hquote, Datum.oneLine_toScheme_iff]
      | cond | lambda | app | letIn | dict => cases he
  | cond test yes no iht ihy ihn =>
      have hif : OneLine "(if " := by decide
      simp [toScheme, hif, hblank, hclose, iht, ihy, ihn, and_assoc]
  | lambda params body ih =>
      have hlambda : OneLine "(lambda (" := by decide
      rw [toScheme, allAtoms_lambda]
      simp only [oneLine_append, oneLine_joinWith hblank, oneLine_leadWith_schemeTexts ih, hlambda,
        hclose, true_and, and_true]
      exact Iff.rfl
  | app operator operands ihf ih =>
      rw [toScheme, allAtoms_app]
      simp only [oneLine_append, oneLine_leadWith_schemeTexts ih, ihf, hopen, hclose, true_and,
        and_true]
  | letIn bindings body ihd ih =>
      have hlet : OneLine "(let (" := by decide
      rw [toScheme, allAtoms_letIn, bindingTexts_eq_map]
      simp only [oneLine_append, oneLine_joinWith hblank, oneLine_leadWith_schemeTexts ih, hlet,
        hclose, hopen, hblank, true_and, and_true, List.forall_mem_map]
      refine and_congr_left fun _ => forall₂_congr fun b hb => and_congr_right fun _ => ihd b hb
  | dict entries ih =>
      have hdict : OneLine "(dict" := by decide
      rw [toScheme, allAtoms_dict, entryTexts_eq_map]
      simp only [oneLine_append, oneLine_leadWith hblank, hdict, hclose, hopen, hblank, true_and,
        and_true, List.forall_mem_map]
      exact forall₂_congr fun x hx => and_congr (ih x hx).1 (ih x hx).2

end Expr

/-- The same for a form, with the name that it defines. -/
theorem Form.oneLine_toScheme_iff {f : Form} :
    OneLine f.toScheme ↔ f.AllAtoms (Datum.Named OneLine) := by
  cases f with
  | define name value =>
      have hdefine : OneLine "(define " := by decide
      have hblank : OneLine " " := by decide
      have hclose : OneLine ")" := by decide
      simp only [toScheme, AllAtoms, oneLine_append, hdefine, hblank, hclose, true_and, and_true]
      exact and_congr_right fun _ => Expr.oneLine_toScheme_iff
  | expr value => exact Expr.oneLine_toScheme_iff

end L32
