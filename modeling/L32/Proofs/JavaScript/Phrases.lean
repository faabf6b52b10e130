import L32.Proofs.JavaScript.Reader

set_option autoImplicit false

/-! # What the texts of the constructs are read as

For each construct of the language that has a JavaScript text, what is read of that text when its
parts are read as they should be. Words come first: an identifier is read as a variable
(`reads_identifier`) and the text of a number as that number (`reads_numberText`). The application
of an operator is several items, and becomes one expression in parentheses or as a part of a
conditional (`exists_reads_write`); the others are one item at once (`reads_callText`,
`reads_lambdaText`, `reads_condText`).

Items are put between parentheses as a whole, so they must not hold marks at which the group would
be cut in the wrong place: they are `Inert`. -/

namespace L32.JavaScript

/-! ## Identifiers -/

/-- The ASCII letters and digits, `_` and `$`. -/
def isIdentifierChar (c : Char) : Bool :=
  c.isAlphanum || c = '_' || c = '$'

/-- The words that are made like identifiers and are none. -/
def reservedWords : List String :=
  ["true", "false", "typeof", "NaN", "Infinity"]

def isIdentifier (name : String) : Bool :=
  match name.toList with
  | [] => false
  | c :: cs =>
    !c.isDigit && (c :: cs).all isIdentifierChar && !reservedWords.contains name

theorem exists_cons_of_isIdentifier {name : String} (h : isIdentifier name = true) :
    ∃ c cs, name.toList = c :: cs ∧ c.isDigit = false
      ∧ (∀ d ∈ name.toList, isIdentifierChar d = true) ∧ name ∉ reservedWords := by
  unfold isIdentifier at h
  cases hname : name.toList with
  | nil => rw [hname] at h; cases h
  | cons c cs =>
      rw [hname] at h
      simp only [Bool.and_eq_true, Bool.not_eq_true', List.all_eq_true,
        List.contains_eq_mem, decide_eq_false_iff_not] at h
      obtain ⟨⟨hdigit, hall⟩, hreserved⟩ := h
      exact ⟨c, cs, rfl, hdigit, hall, hreserved⟩

theorem isBreak_of_isIdentifierChar {c : Char} (h : isIdentifierChar c = true) :
    isBreak c = false := by
  by_contra hbreak
  rw [Bool.not_eq_false] at hbreak
  simp only [isBreak, List.mem_cons, List.not_mem_nil, or_false, decide_eq_true_eq] at hbreak
  rcases hbreak with rfl | rfl | rfl | rfl | rfl | rfl <;> exact absurd h (by decide)

theorem ofChar?_eq_none_of_not_isDigit {c : Char} (h : c.isDigit = false) :
    Digit.ofChar? c = none := by
  have hval : ¬ (48 ≤ c.toNat ∧ c.toNat ≤ 57) := by
    rintro ⟨hlow, hhigh⟩
    have hdigit : c.isDigit = true := by
      simp only [Char.isDigit, Bool.and_eq_true, decide_eq_true_eq, ge_iff_le]
      exact ⟨hlow, hhigh⟩
    rw [h] at hdigit
    cases hdigit
  unfold Digit.ofChar?
  split
  · rw [dif_neg (by omega)]
  · rfl

theorem readNumber?_of_isIdentifier {name : String} (h : isIdentifier name = true) :
    readNumber? name = none := by
  obtain ⟨c, cs, hname, hdigit, hall, _⟩ := exists_cons_of_isIdentifier h
  have hminus : '-' ≠ c := by
    rintro rfl
    exact absurd (hall '-' (by rw [hname]; exact List.mem_cons_self)) (by decide)
  have hread : Json.readNumeral? (c :: cs) = none := by
    simp [Json.readNumeral?, Json.afterWord?, hminus, Json.readUnsigned?, Json.readWhole?,
      Json.readDigits?, Json.takeDigits, ofChar?_eq_none_of_not_isDigit hdigit]
  unfold readNumber?
  rw [hname, hread]

theorem fixedWord?_of_isIdentifier {name : String} (h : isIdentifier name = true) :
    fixedWord? name = none := by
  unfold fixedWord?
  split
  -- no fixed word is an identifier
  iterate 21
    exact absurd h (by decide)
  rfl

/-- **An identifier is read as a variable.** -/
theorem reads_identifier {name : String} (h : isIdentifier name = true) :
    Reads name [.expr (.var name)] := by
  obtain ⟨c, cs, hname, _, hall, _⟩ := exists_cons_of_isIdentifier h
  have hword : ofWord name = .expr (.var name) := by
    unfold ofWord
    rw [readNumber?_of_isIdentifier h, fixedWord?_of_isIdentifier h]
    rfl
  rw [← hword]
  refine reads_word ?_ fun d hd => isBreak_of_isIdentifierChar (hall d hd)
  rintro rfl
  cases hname

/-! ## Numbers -/

/-- A number, with one zero and one that is not a number. -/
def normalNumber (x : Float) : Float :=
  match Double.ofFloat x with
  | .notANumber => notANumber
  | .infinite _ => x
  | .finite _ mantissa _ => if mantissa = 0 then Float.ofBits 0 else x

theorem isBreak_of_mem_text {n : Numeral} {c : Char} (hc : c ∈ n.text.toList) :
    isBreak c = false := by
  have hchars : ∀ d ∈ numeralChars, isBreak d = false := by simp [numeralChars, isBreak]
  exact hchars c (mem_numeralChars hc)

theorem reads_numeral {n : Numeral} {x : Float} (h : n.toFloat? = some x) :
    Reads n.text [.expr (.number x)] := by
  have hword : ofWord n.text = .expr (.number x) := by
    have hread := Json.readNumeral?_text n Json.ends_nil
    rw [List.append_nil] at hread
    unfold ofWord readNumber?
    simp only [hread, h]
  rw [← hword]
  refine reads_word ?_ fun c hc => isBreak_of_mem_text hc
  intro hempty
  obtain ⟨c, cs, hcons, _⟩ := Json.exists_toList_text_eq_cons n
  rw [hempty] at hcons
  cases hcons

/-- **The text of a number is read as that number**, up to the sign of zero. -/
theorem reads_numberText (x : Float) : Reads (numberText x) [.expr (.number (normalNumber x))] := by
  cases hx : Double.ofFloat x with
  | notANumber =>
      have htext : numberText x = "NaN" := by simp [numberText, hx]
      have hnormal : normalNumber x = notANumber := by simp [normalNumber, hx]
      rw [htext, hnormal]
      exact reads_word (by decide) (by simp [isBreak])
  | infinite negative =>
      have hnormal : normalNumber x = infinity negative := by
        simp only [normalNumber, hx]
        exact Double.eq_of_ofFloat_infinite hx
      rw [hnormal]
      cases negative with
      | true =>
          have htext : numberText x = "-Infinity" := by simp [numberText, hx]
          rw [htext]
          exact reads_word (by decide) (by simp [isBreak])
      | false =>
          have htext : numberText x = "Infinity" := by simp [numberText, hx]
          rw [htext]
          exact reads_word (by decide) (by simp [isBreak])
  | finite negative mantissa exponent =>
      by_cases hm : mantissa = 0
      · have htext : numberText x = "0" := by simp [numberText, hx, hm]
        have hnormal : normalNumber x = Float.ofBits 0 := by simp [normalNumber, hx, hm]
        rw [htext, hnormal]
        exact reads_word (by decide) (by simp [isBreak])
      · have hnormal : normalNumber x = x := by simp [normalNumber, hx, hm]
        obtain ⟨n, htext, hn⟩ := exists_numberText_eq hx (Nat.pos_of_ne_zero hm)
        rw [htext, hnormal]
        exact reads_numeral hn

/-! ## Operators -/

/-- The name of an operator in a normal form: `eq?` is another name of `=`. -/
def canonicalName (name : String) : String :=
  if name = "eq?" then "=" else name

/-- The operands that are written. -/
def Operator.kept {α : Type} : Operator → List α → List α
  | chain _, operands => operands
  | equality, operands => operands.take 2
  | negation, operands => operands.take 1
  | typeTest _, operands => operands.take 1

/-- How the table writes an operator, in terms of what is read. -/
inductive Written : String → Operator → Prop
  | chain {name symbol : String} (hname : canonicalName name = name)
      (hsymbol : Marks (" " ++ symbol ++ " ") (.between name)) : Written name (.chain symbol)
  | equality {name : String} (hname : canonicalName name = "=") : Written name .equality
  | negation : Written "not" .negation
  | typeTest {name type : String} (hname : canonicalName name = name)
      (htype : Reads ("'" ++ type ++ "'") [.mark (.type name)]) : Written name (.typeTest type)

theorem written_of_operator? {name : String} {operator : Operator}
    (h : operator? name = some operator) : Written name operator := by
  unfold operator? at h
  split at h
  -- arithmetic and comparison
  iterate 6
    cases h
    exact .chain rfl (marks_between (by decide) (by simp [isBreak]) rfl)
  iterate 2
    cases h
    exact .equality rfl
  iterate 2
    cases h
    exact .chain rfl (marks_between (by decide) (by simp [isBreak]) rfl)
  · cases h
    exact .negation
  iterate 2
    cases h
    exact .typeTest rfl (reads_word (by decide) (by simp [isBreak]))
  cases h

/-- None of the marks that a group around the items would be cut at. -/
def Inert (items : List Item) : Prop :=
  ∀ i ∈ items, i.isMark .opening = false ∧ i.isMark .question = false ∧ i.isMark .colon = false

theorem inert_expr (e : Expr) : Inert [.expr e] := by
  intro i hi
  rw [List.mem_singleton.1 hi]
  exact ⟨rfl, rfl, rfl⟩

theorem inert_joined {m : Mark} (hopening : m ≠ .opening) (hquestion : m ≠ .question)
    (hcolon : m ≠ .colon) (es : List Expr) : Inert (joined m es) := by
  fun_induction joined m es with
  | case1 =>
      intro i hi
      cases hi
  | case2 e => exact inert_expr e
  | case3 e f es ih =>
      intro i hi
      rcases List.mem_cons.1 hi with rfl | hi
      · exact ⟨rfl, rfl, rfl⟩
      rcases List.mem_cons.1 hi with rfl | hi
      · exact ⟨decide_eq_false hopening, decide_eq_false hquestion, decide_eq_false hcolon⟩
      · exact ih i hi

theorem exists_break_blank (s : String) :
    ∃ c cs, (" " ++ s).toList = c :: cs ∧ isBreak c = true :=
  ⟨' ', s.toList, by simp, rfl⟩

/-- **The application of an operator is read as that of its canonical name to the operands that
are written.** -/
theorem exists_reads_write {name : String} {operator : Operator} {ts : List String}
    {es : List Expr} {t : String} (hoperator : operator? name = some operator)
    (hts : List.Forall₂ (fun t e => Reads t [.expr e]) ts es) (ht : operator.write? ts = some t) :
    ∃ items, Reads t items ∧ Inert items
      ∧ operation? items = some (.app (.prim (canonicalName name)) (operator.kept es)) := by
  have hequals : Marks " === " (.between "=") :=
    marks_between (w := "===") (by decide) (by simp [isBreak]) rfl
  cases written_of_operator? hoperator with
  | @chain _ symbol hname hsymbol =>
      obtain _ | ⟨he, _ | ⟨hf, hes⟩⟩ := hts
      · cases ht
      · cases ht
      · rename_i t₁ e₁ t₂ e₂ ts es
        cases ht
        have hjoined : Reads (joinWith (" " ++ symbol ++ " ") (t₁ :: t₂ :: ts))
            (joined (.between name) (e₁ :: e₂ :: es)) := by
          apply reads_joined _ hsymbol (.cons he (.cons hf hes))
          rw [String.append_assoc]
          exact exists_break_blank _
        refine ⟨_, hjoined, inert_joined (by simp) (by simp) (by simp) _, ?_⟩
        show (separated? _ (joined _ (e₂ :: es))).map _ = _
        rw [separated?_joined, hname]
        rfl
  | equality hname =>
      obtain _ | ⟨he, _ | ⟨hf, hes⟩⟩ := hts
      · cases ht
      · cases ht
      · cases ht
        refine ⟨_, he.append (exists_break_blank "=== ") hequals hf, ?_, ?_⟩
        · exact inert_joined (m := .between "=") (by simp) (by simp) (by simp) [_, _]
        · rw [hname]
          rfl
  | negation =>
      obtain _ | ⟨he, hes⟩ := hts
      · cases ht
      · cases ht
        refine ⟨_, he.lead marks_negation, ?_, rfl⟩
        simp [Inert]
  | @typeTest _ type hname htype =>
      obtain _ | ⟨he, hes⟩ := hts
      · cases ht
      · rename_i t₁ e₁ ts es
        cases ht
        have htypeof : Marks "typeof " .typeOf :=
          marks_word (w := "typeof") (by decide) (by simp [isBreak]) rfl
        have htext : "typeof " ++ t₁ ++ " === '" ++ type ++ "'"
            = "typeof " ++ (t₁ ++ " === " ++ ("'" ++ type ++ "'")) := by
          rw [← String.toList_inj]
          simp
        rw [htext]
        refine ⟨_, (he.append (exists_break_blank "=== ") hequals htype).lead htypeof, ?_, ?_⟩
        · simp [Inert]
        · rw [hname]
          rfl

/-! ## Groups -/

theorem group?_of_inert {items : List Item} (h : Inert items) :
    group? items = simpleGroup? items := by
  unfold group?
  rw [List.splitOnP_eq_singleton fun i hi => (h i hi).2.1]

/-- Inert items in parentheses, if they are no call. -/
theorem Reads.simpleGroup {t : String} {items : List Item} (ht : Reads t items)
    (hinert : Inert items) {item : Item} (hgroup : simpleGroup? items = some item) :
    Reads ("(" ++ t ++ ")") [item] :=
  ht.group (fun i hi => (hinert i hi).1) ((group?_of_inert hinert).trans hgroup)

theorem part?_of_operation? {items : List Item} {e : Expr} (h : operation? items = some e) :
    part? items = some e := by
  unfold part?
  split
  · cases h
  · exact h

theorem simpleGroup?_of_operation? {items : List Item} {e : Expr} (h : operation? items = some e) :
    simpleGroup? items = some (.expr e) := by
  have hoperation := h
  unfold operation? at h
  -- none of the three kinds starts like parameters or a body
  split at h
  · cases h
    rfl
  · cases h
    rfl
  · rename_i f name items
    have hcomma : separated? .comma (.expr f :: .mark (.between name) :: items) = none := by
      simp [separated?]
    have hsemicolon : separated? .semicolon (.expr f :: .mark (.between name) :: items) = none := by
      simp [separated?]
    simp only [simpleGroup?, params?, hcomma, Option.bind_none, hsemicolon, hoperation,
      Option.map_some]
  · cases h

theorem simpleGroup?_params (names : List String) :
    simpleGroup? (joined .comma (names.map Expr.var)) = some (.params names) := by
  have hvars : (names.map Expr.var).mapM Expr.var? = some names := by
    induction names with
    | nil => rfl
    | cons name names ih => simp [Expr.var?, ih]
  have hparams : params? (joined .comma (names.map Expr.var)) = some names := by
    unfold params?
    rw [separated?_joined, Option.bind_some, hvars]
  unfold simpleGroup?
  split
  · rename_i heq
    obtain _ | ⟨name, _ | _⟩ := names <;> cases heq
  · rename_i heq
    obtain _ | ⟨name, _ | _⟩ := names <;> cases heq
  · rw [hparams]

theorem simpleGroup?_body (e f : Expr) (es : List Expr) :
    simpleGroup? (joined .semicolon (e :: f :: es)) = some (.body (e :: f :: es)) := by
  have hsemicolon := separated?_joined .semicolon (e :: f :: es)
  have hcomma : separated? .comma (joined .semicolon (e :: f :: es)) = none := by
    simp [joined, separated?]
  unfold simpleGroup?
  split
  · rename_i heq
    cases heq
  · rename_i heq
    cases heq
  · simp only [params?, hcomma, Option.bind_none, hsemicolon]

theorem group?_conditional {test yes no : List Item} {t y n : Expr} (htest : Inert test)
    (hyes : Inert yes) (hno : Inert no) (ht : part? test = some t) (hy : part? yes = some y)
    (hn : part? no = some n) :
    group? (test ++ .mark .question :: (yes ++ .mark .colon :: no))
      = some (.expr (.cond t y n)) := by
  have hbranches : ∀ i ∈ yes ++ .mark .colon :: no, i.isMark .question = false := by
    intro i hi
    rcases List.mem_append.1 hi with hi | hi
    · exact (hyes i hi).2.1
    rcases List.mem_cons.1 hi with rfl | hi
    · rfl
    · exact (hno i hi).2.1
  have hconditional : conditional? test (yes ++ .mark .colon :: no) = some (.cond t y n) := by
    unfold conditional?
    rw [List.splitOnP_append_cons yes no rfl,
      List.splitOnP_eq_singleton fun i hi => (hyes i hi).2.2,
      List.splitOnP_eq_singleton fun i hi => (hno i hi).2.2]
    simp [ht, hy, hn]
  unfold group?
  rw [List.splitOnP_append_cons test _ rfl,
    List.splitOnP_eq_singleton fun i hi => (htest i hi).2.1,
    List.splitOnP_eq_singleton hbranches]
  simp [hconditional]

/-! ## Constructs -/

theorem reads_boolText (b : Bool) : Reads (boolText b) [.expr (.bool b)] := by
  cases b with
  | true => exact reads_word (w := "true") (by decide) (by simp [isBreak])
  | false => exact reads_word (w := "false") (by decide) (by simp [isBreak])

section Texts

variable {t callee : String} {ts : List String} {e f : Expr} {es : List Expr}

theorem reads_callText (hf : Reads callee [.expr f])
    (hts : List.Forall₂ (fun t e => Reads t [.expr e]) ts es) :
    Reads (callText callee ts) [.expr (.app f es)] := by
  have hinert : Inert (joined .comma es) := inert_joined (by simp) (by simp) (by simp) es
  exact hf.call (reads_joined ⟨',', [], rfl, rfl⟩ marks_comma hts) (fun i hi => (hinert i hi).1)
    (separated?_joined .comma es)

theorem reads_params {params : List String} (h : ∀ name ∈ params, isIdentifier name = true) :
    Reads ("(" ++ joinWith "," params ++ ")") [.params params] := by
  have hnames : List.Forall₂ (fun t e => Reads t [.expr e]) params (params.map Expr.var) := by
    rw [List.forall₂_map_right_iff, List.forall₂_same]
    exact fun name hname => reads_identifier (h name hname)
  have hjoined := reads_joined ⟨',', [], rfl, rfl⟩ marks_comma hnames
  exact hjoined.simpleGroup (inert_joined (by simp) (by simp) (by simp) _)
    (simpleGroup?_params params)

/-- The body of a procedure is one item, an expression or several in parentheses. -/
theorem exists_reads_bodyText (ht : Reads t [.expr e])
    (hts : List.Forall₂ (fun t e => Reads t [.expr e]) ts es) :
    ∃ item, Reads (bodyText (t :: ts)) [item]
      ∧ ∀ params, Inert [.params params, .mark .arrow, item]
        ∧ simpleGroup? [.params params, .mark .arrow, item]
          = some (.expr (.lambda params (e :: es))) := by
  cases hts with
  | nil =>
      refine ⟨.expr e, ht, fun params => ⟨?_, rfl⟩⟩
      simp [Inert]
  | @cons u f us fs hu hus =>
      have hsemicolon : Marks " ; " .semicolon :=
        marks_between (w := ";") (by decide) (by simp [isBreak]) rfl
      have hjoined := reads_joined (exists_break_blank "; ") hsemicolon (.cons ht (.cons hu hus))
      refine ⟨.body (e :: f :: fs), ?_, fun params => ⟨?_, rfl⟩⟩
      · exact hjoined.simpleGroup (inert_joined (by simp) (by simp) (by simp) _)
          (simpleGroup?_body e f fs)
      · simp [Inert]

theorem reads_lambdaText {params : List String}
    (hparams : ∀ name ∈ params, isIdentifier name = true) (ht : Reads t [.expr e])
    (hts : List.Forall₂ (fun t e => Reads t [.expr e]) ts es) :
    Reads (lambdaText params (t :: ts)) [.expr (.lambda params (e :: es))] := by
  obtain ⟨item, hbody, hlambda⟩ := exists_reads_bodyText ht hts
  have harrow : Marks " => " .arrow :=
    marks_between (w := "=>") (by decide) (by simp [isBreak]) rfl
  have htext : lambdaText params (t :: ts)
      = "(" ++ (("(" ++ joinWith "," params ++ ")") ++ " => " ++ bodyText (t :: ts)) ++ ")" := by
    rw [← String.toList_inj]
    simp [lambdaText]
  have hall := (reads_params hparams).append (exists_break_blank "=> ") harrow hbody
  rw [htext]
  exact hall.simpleGroup (hlambda params).1 (hlambda params).2

end Texts

theorem reads_condText {test yes no : String} {is₁ is₂ is₃ : List Item} {t y n : Expr}
    (htest : Reads test is₁) (hyes : Reads yes is₂) (hno : Reads no is₃) (hi₁ : Inert is₁)
    (hi₂ : Inert is₂) (hi₃ : Inert is₃) (ht : part? is₁ = some t) (hy : part? is₂ = some y)
    (hn : part? is₃ = some n) : Reads (condText test yes no) [.expr (.cond t y n)] := by
  have hquestion : Marks " ? " .question :=
    marks_between (w := "?") (by decide) (by simp [isBreak]) rfl
  have hcolon : Marks " : " .colon :=
    marks_between (w := ":") (by decide) (by simp [isBreak]) rfl
  have hbranches := hyes.append (exists_break_blank ": ") hcolon hno
  have hall := htest.append (exists_break_blank "? ") hquestion hbranches
  have htext : condText test yes no
      = "(" ++ (test ++ " ? " ++ (yes ++ " : " ++ no)) ++ ")" := by
    simp only [condText, String.append_assoc]
  rw [htext]
  refine hall.group ?_ (group?_conditional hi₁ hi₂ hi₃ ht hy hn)
  intro i hi
  simp only [List.mem_append, List.mem_cons] at hi
  rcases hi with hi | rfl | hi | rfl | hi
  · exact (hi₁ i hi).1
  · rfl
  · exact (hi₂ i hi).1
  · rfl
  · exact (hi₃ i hi).1

end L32.JavaScript
