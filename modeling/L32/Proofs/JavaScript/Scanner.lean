import L32.Proofs.JavaScript.Desugared
import L32.Proofs.JavaScript.Literals
import L32.Proofs.JavaScript.Strings

set_option autoImplicit false

/-! # Parentheses and dividers in JavaScript texts

A `Scanner` goes over a text, skips string literals, counts parentheses and notes every divider,
that is every `?`, `:`, `,` and `;`, with the depth at which it stands. A text is well bracketed if
`scan?` gives its dividers: no parenthesis closes what was not opened, and in the end everything is
closed.

`Passes t ms` says that a text leaves the depth as it was and never goes below it, with the dividers
`ms`. It is kept by every way in which texts are put together, and a pair of parentheses moves the
dividers inside it one deeper. A text is `Sealed` if all of its dividers stand inside parentheses.
For each construct of the language that has a JavaScript text, that text is sealed if those of its
parts are. -/

namespace L32.JavaScript

/-! ## The scanner -/

/-- Where a scanner is: in the code, in a string literal, or behind a backslash in one. -/
inductive Scanner.Mode where
  | code
  | text
  | escape
  deriving DecidableEq, Repr

/-- How far the scan of a text has come. -/
structure Scanner where
  mode : Scanner.Mode
  /-- How many parentheses are open. -/
  depth : Nat
  /-- The dividers so far, each with its depth. -/
  marks : List (Nat × Char)
  deriving DecidableEq, Repr

/-- The characters that divide the parts of a construct. -/
def dividers : List Char :=
  ['?', ':', ',', ';']

namespace Scanner

/-- One character. A parenthesis that closes nothing ends the scan. -/
def step? : Scanner → Char → Option Scanner
  | ⟨.code, depth, marks⟩, c =>
    if c = '"' then some ⟨.text, depth, marks⟩
    else if c = '(' then some ⟨.code, depth + 1, marks⟩
    else if c = ')' then
      match depth with
      | 0 => none
      | depth + 1 => some ⟨.code, depth, marks⟩
    else if c ∈ dividers then some ⟨.code, depth, marks ++ [(depth, c)]⟩
    else some ⟨.code, depth, marks⟩
  | ⟨.text, depth, marks⟩, c =>
    if c = '"' then some ⟨.code, depth, marks⟩
    else if c = '\\' then some ⟨.escape, depth, marks⟩
    else some ⟨.text, depth, marks⟩
  | ⟨.escape, depth, marks⟩, _ => some ⟨.text, depth, marks⟩

def run? (s : Scanner) (cs : List Char) : Option Scanner :=
  cs.foldlM step? s

theorem run?_cons (s : Scanner) (c : Char) (cs : List Char) :
    s.run? (c :: cs) = (s.step? c).bind fun s => s.run? cs :=
  rfl

theorem run?_append (s : Scanner) (cs ds : List Char) :
    s.run? (cs ++ ds) = (s.run? cs).bind fun s => s.run? ds :=
  List.foldlM_append

end Scanner

/-- The dividers of a text that is well bracketed: the depth never goes below zero, and in the end
it is zero again and no string literal is open. -/
def scan? (t : String) : Option (List (Nat × Char)) :=
  match Scanner.run? ⟨.code, 0, []⟩ t.toList with
  | some ⟨.code, 0, marks⟩ => some marks
  | _ => none

/-! ## Texts that keep the depth -/

/-- Dividers inside `n` more parentheses. -/
def deepen (n : Nat) (marks : List (Nat × Char)) : List (Nat × Char) :=
  marks.map fun m => (n + m.1, m.2)

@[simp] theorem deepen_nil (n : Nat) : deepen n [] = [] := rfl

@[simp] theorem deepen_append (n : Nat) (ms ns : List (Nat × Char)) :
    deepen n (ms ++ ns) = deepen n ms ++ deepen n ns :=
  List.map_append

theorem deepen_deepen (n k : Nat) (ms : List (Nat × Char)) :
    deepen n (deepen k ms) = deepen (n + k) ms := by
  simp [deepen, Nat.add_assoc]

theorem deepen_zero (ms : List (Nat × Char)) : deepen 0 ms = ms := by
  simp [deepen]

theorem pos_of_mem_deepen_one {ms : List (Nat × Char)} {m : Nat × Char} (h : m ∈ deepen 1 ms) :
    0 < m.1 := by
  obtain ⟨m', _, rfl⟩ := List.mem_map.1 h
  exact Nat.lt_add_right _ Nat.one_pos

/-- **The text keeps the depth** at which it starts, never goes below it, and has these dividers,
each at a depth from there. -/
def Passes (t : String) (ms : List (Nat × Char)) : Prop :=
  ∀ depth marks, Scanner.run? ⟨.code, depth, marks⟩ t.toList
    = some ⟨.code, depth, marks ++ deepen depth ms⟩

namespace Passes

variable {t u : String} {ms ns : List (Nat × Char)}

theorem scan?_eq (h : Passes t ms) : scan? t = some ms := by
  unfold scan?
  rw [h 0 [], List.nil_append, deepen_zero]
  rfl

theorem append (ht : Passes t ms) (hu : Passes u ns) : Passes (t ++ u) (ms ++ ns) := by
  intro depth marks
  rw [String.toList_append, Scanner.run?_append, ht, Option.bind_some, hu, deepen_append,
    List.append_assoc]

/-- Parentheses move the dividers between them one deeper. -/
theorem parens (h : Passes t ms) : Passes ("(" ++ t ++ ")") (deepen 1 ms) := by
  intro depth marks
  have hopen : Scanner.run? ⟨.code, depth, marks⟩ "(".toList
      = some ⟨.code, depth + 1, marks⟩ := rfl
  have hclose : ∀ marks', Scanner.run? ⟨.code, depth + 1, marks'⟩ ")".toList
      = some ⟨.code, depth, marks'⟩ := fun _ => rfl
  rw [String.toList_append, String.toList_append, Scanner.run?_append, Scanner.run?_append, hopen,
    Option.bind_some, h, Option.bind_some, hclose, deepen_deepen]

end Passes

/-- Whether a scan takes notice of the character outside string literals. -/
def isStructural (c : Char) : Bool :=
  c = '(' || c = ')' || c = '"' || c ∈ dividers

/-- The text has no parenthesis, no double quote and no divider. -/
def Unstructured (t : String) : Prop :=
  ∀ c ∈ t.toList, isStructural c = false

instance (t : String) : Decidable (Unstructured t) :=
  decidable_of_iff (t.toList.all fun c => !isStructural c) (by simp [Unstructured])

theorem Scanner.step?_of_isStructural {c : Char} (h : isStructural c = false) (depth : Nat)
    (marks : List (Nat × Char)) :
    Scanner.step? ⟨.code, depth, marks⟩ c = some ⟨.code, depth, marks⟩ := by
  simp only [isStructural, Bool.or_eq_false_iff, decide_eq_false_iff_not] at h
  obtain ⟨⟨⟨hopen, hclose⟩, hquote⟩, hdivider⟩ := h
  simp only [Scanner.step?, if_neg hquote, if_neg hopen, if_neg hclose, if_neg hdivider]

theorem passes_of_unstructured {t : String} (h : Unstructured t) : Passes t [] := by
  intro depth marks
  rw [deepen_nil, List.append_nil]
  unfold Unstructured at h
  generalize t.toList = cs at h ⊢
  induction cs with
  | nil => rfl
  | cons c cs ih =>
      obtain ⟨hc, hcs⟩ := List.forall_mem_cons.1 h
      rw [Scanner.run?_cons, Scanner.step?_of_isStructural hc, Option.bind_some, ih hcs]

theorem passes_divider {c : Char} (h : c ∈ dividers) : Passes (String.singleton c) [(0, c)] := by
  intro depth marks
  have hstep : Scanner.step? ⟨.code, depth, marks⟩ c
      = some ⟨.code, depth, marks ++ [(depth, c)]⟩ := by
    simp only [dividers, List.mem_cons, List.not_mem_nil, or_false] at h
    rcases h with rfl | rfl | rfl | rfl <;> rfl
  rw [String.toList_singleton, Scanner.run?_cons, hstep]
  rfl

/-- Inside a string literal nothing is counted. -/
theorem run?_quotable_text {body : List Char} (h : Quotable body) (depth : Nat)
    (marks : List (Nat × Char)) :
    Scanner.run? ⟨.text, depth, marks⟩ body = some ⟨.text, depth, marks⟩ := by
  induction h with
  | nil => rfl
  | @char c cs hquote hslash _ ih =>
      have hstep : Scanner.step? ⟨.text, depth, marks⟩ c = some ⟨.text, depth, marks⟩ := by
        simp only [Scanner.step?, if_neg hquote, if_neg hslash]
      rw [Scanner.run?_cons, hstep, Option.bind_some, ih]
  | escape c _ ih => exact ih

theorem passes_stringText (s : String) : Passes (stringText s) [] := by
  intro depth marks
  have hclose : Scanner.run? ⟨.text, depth, marks⟩ ['"'] = some ⟨.code, depth, marks⟩ := rfl
  rw [toList_stringText, deepen_nil, List.append_nil]
  -- the opening quote has been read
  show Scanner.run? ⟨.text, depth, marks⟩ _ = _
  rw [Scanner.run?_append, run?_quotable_text (quotable_flatMap_escape _), Option.bind_some, hclose]

/-! ## Bracketed and sealed texts -/

/-- The text keeps the depth. -/
def Bracketed (t : String) : Prop :=
  ∃ ms, Passes t ms

/-- **The text keeps the depth, and all of its dividers stand inside parentheses.** -/
def Sealed (t : String) : Prop :=
  ∃ ms, Passes t ms ∧ ∀ m ∈ ms, 0 < m.1

theorem Bracketed.append {t u : String} (ht : Bracketed t) (hu : Bracketed u) :
    Bracketed (t ++ u) := by
  obtain ⟨ms, hms⟩ := ht
  obtain ⟨ns, hns⟩ := hu
  exact ⟨ms ++ ns, hms.append hns⟩

/-- Whatever is divided outside the parentheses is sealed by them. -/
theorem Bracketed.parens {t : String} (h : Bracketed t) : Sealed ("(" ++ t ++ ")") := by
  obtain ⟨ms, hms⟩ := h
  exact ⟨deepen 1 ms, hms.parens, fun m hm => pos_of_mem_deepen_one hm⟩

namespace Sealed

variable {t u : String}

theorem bracketed (h : Sealed t) : Bracketed t := by
  obtain ⟨ms, hms, _⟩ := h
  exact ⟨ms, hms⟩

theorem of_passes_nil (h : Passes t []) : Sealed t :=
  ⟨[], h, nofun⟩

theorem of_unstructured (h : Unstructured t) : Sealed t :=
  of_passes_nil (passes_of_unstructured h)

theorem append (ht : Sealed t) (hu : Sealed u) : Sealed (t ++ u) := by
  obtain ⟨ms, hms, hpos⟩ := ht
  obtain ⟨ns, hns, hpos'⟩ := hu
  refine ⟨ms ++ ns, hms.append hns, ?_⟩
  intro m hm
  rcases List.mem_append.1 hm with hm | hm
  · exact hpos m hm
  · exact hpos' m hm

end Sealed

theorem bracketed_comma : Bracketed "," :=
  ⟨_, passes_divider (c := ',') (by decide)⟩

theorem passes_spaced {c : Char} (h : c ∈ dividers) :
    Passes (" " ++ String.singleton c ++ " ") [(0, c)] := by
  have hblank : Passes " " [] := passes_of_unstructured (by decide)
  exact (hblank.append (passes_divider h)).append hblank

/-- What holds of the texts and of the separator, and of nothing and of two texts in a row, holds of
the joined texts. -/
theorem joinWith_induction {P : String → Prop} {separator : String} {ts : List String}
    (hempty : P "") (happend : ∀ t u, P t → P u → P (t ++ u)) (hseparator : P separator)
    (hts : ∀ t ∈ ts, P t) : P (joinWith separator ts) := by
  induction ts with
  | nil => exact hempty
  | cons t ts ih =>
      obtain ⟨ht, hts⟩ := List.forall_mem_cons.1 hts
      rw [joinWith_cons]
      split
      · exact ht
      · exact happend _ _ (happend _ _ ht hseparator) (ih hts)

theorem bracketed_joinWith {separator : String} {ts : List String}
    (hseparator : Bracketed separator) (hts : ∀ t ∈ ts, Bracketed t) :
    Bracketed (joinWith separator ts) :=
  joinWith_induction ⟨[], passes_of_unstructured (by decide)⟩ (fun _ _ => Bracketed.append)
    hseparator hts

theorem sealed_joinWith {separator : String} {ts : List String} (hseparator : Sealed separator)
    (hts : ∀ t ∈ ts, Sealed t) : Sealed (joinWith separator ts) :=
  joinWith_induction (.of_unstructured (by decide)) (fun _ _ => Sealed.append) hseparator hts

/-! ## The texts of the constructs -/

theorem sealed_numberText (x : Float) : Sealed (numberText x) := by
  have hchars : ∀ c ∈ numberChars, isStructural c = false := by
    simp [numberChars, numeralChars, isStructural, dividers]
  exact .of_unstructured fun c hc => hchars c (mem_numberChars hc)

theorem sealed_boolText (b : Bool) : Sealed (boolText b) := by
  cases b with
  | true => exact .of_unstructured (t := "true") (by decide)
  | false => exact .of_unstructured (t := "false") (by decide)

theorem sealed_callText {callee : String} {ts : List String} (hcallee : Sealed callee)
    (hts : ∀ t ∈ ts, Sealed t) : Sealed (callText callee ts) := by
  have hjoined := bracketed_joinWith bracketed_comma fun t ht => (hts t ht).bracketed
  have htext : callText callee ts = callee ++ ("(" ++ joinWith "," ts ++ ")") := by
    simp only [callText, String.append_assoc]
  rw [htext]
  exact hcallee.append hjoined.parens

theorem sealed_bodyText {ts : List String} (hts : ∀ t ∈ ts, Sealed t) : Sealed (bodyText ts) := by
  have hsemicolon : Bracketed " ; " := ⟨_, passes_spaced (c := ';') (by decide)⟩
  have hjoined := bracketed_joinWith hsemicolon fun t ht => (hts t ht).bracketed
  unfold bodyText
  split
  · exact hts _ List.mem_cons_self
  · exact hjoined.parens

theorem sealed_lambdaText {params ts : List String} (hparams : ∀ name ∈ params, Unstructured name)
    (hts : ∀ t ∈ ts, Sealed t) : Sealed (lambdaText params ts) := by
  have hlist : Bracketed (joinWith "," params) :=
    bracketed_joinWith bracketed_comma fun name hname =>
      (Sealed.of_unstructured (hparams name hname)).bracketed
  have harrow : Sealed " => " := .of_unstructured (by decide)
  have htext : lambdaText params ts
      = "(" ++ ("(" ++ joinWith "," params ++ ")" ++ " => " ++ bodyText ts) ++ ")" := by
    rw [← String.toList_inj]
    simp [lambdaText]
  rw [htext]
  exact ((hlist.parens.append harrow).append (sealed_bodyText hts)).bracketed.parens

/-- **The dividers of a conditional**: its own two, and those of its parts one deeper. -/
theorem passes_condText {t₁ t₂ t₃ : String} {ms₁ ms₂ ms₃ : List (Nat × Char)} (h₁ : Passes t₁ ms₁)
    (h₂ : Passes t₂ ms₂) (h₃ : Passes t₃ ms₃) :
    Passes (condText t₁ t₂ t₃)
      (deepen 1 ms₁ ++ (1, '?') :: (deepen 1 ms₂ ++ (1, ':') :: deepen 1 ms₃)) := by
  have hquestion : Passes " ? " [(0, '?')] := passes_spaced (c := '?') (by decide)
  have hcolon : Passes " : " [(0, ':')] := passes_spaced (c := ':') (by decide)
  have hall := ((((h₁.append hquestion).append h₂).append hcolon).append h₃).parens
  have htext : condText t₁ t₂ t₃ = "(" ++ (t₁ ++ " ? " ++ t₂ ++ " : " ++ t₃) ++ ")" := by
    simp only [condText, String.append_assoc]
  rw [htext]
  simpa [deepen] using hall

theorem sealed_condText {t₁ t₂ t₃ : String} (h₁ : Bracketed t₁) (h₂ : Bracketed t₂)
    (h₃ : Bracketed t₃) : Sealed (condText t₁ t₂ t₃) := by
  obtain ⟨ms₁, hms₁⟩ := h₁
  obtain ⟨ms₂, hms₂⟩ := h₂
  obtain ⟨ms₃, hms₃⟩ := h₃
  refine ⟨_, passes_condText hms₁ hms₂ hms₃, ?_⟩
  intro m hm
  simp only [List.mem_append, List.mem_cons] at hm
  rcases hm with hm | rfl | hm | rfl | hm
  · exact pos_of_mem_deepen_one hm
  · exact Nat.one_pos
  · exact pos_of_mem_deepen_one hm
  · exact Nat.one_pos
  · exact pos_of_mem_deepen_one hm

/-- What the operator adds to its operands has no structure of its own. -/
def Operator.Unstructured : Operator → Prop
  | chain symbol => JavaScript.Unstructured symbol
  | typeTest type => JavaScript.Unstructured type
  | _ => True

theorem unstructured_of_operator? {name : String} {operator : Operator}
    (h : operator? name = some operator) : operator.Unstructured := by
  unfold operator? at h
  split at h
  iterate 6
    cases h
    show JavaScript.Unstructured _
    decide
  iterate 2
    cases h
    trivial
  iterate 2
    cases h
    show JavaScript.Unstructured _
    decide
  · cases h
    trivial
  iterate 2
    cases h
    show JavaScript.Unstructured _
    decide
  cases h

theorem sealed_write? {operator : Operator} (hoperator : operator.Unstructured)
    {ts : List String} (hts : ∀ t ∈ ts, Sealed t) {t : String} (h : operator.write? ts = some t) :
    Sealed t := by
  unfold Operator.write? at h
  split at h
  · rename_i symbol t u ts
    cases h
    have hblank : Sealed " " := .of_unstructured (by decide)
    exact sealed_joinWith ((hblank.append (.of_unstructured hoperator)).append hblank) hts
  · rename_i t u ts
    cases h
    simp only [List.forall_mem_cons] at hts
    exact (hts.1.append (.of_unstructured (by decide))).append hts.2.1
  · rename_i t ts
    cases h
    rw [List.forall_mem_cons] at hts
    exact Sealed.append (.of_unstructured (by decide)) hts.1
  · rename_i type t ts
    cases h
    rw [List.forall_mem_cons] at hts
    have htypeof : Sealed "typeof " := .of_unstructured (by decide)
    have hequals : Sealed " === '" := .of_unstructured (by decide)
    have hquote : Sealed "'" := .of_unstructured (by decide)
    exact (((htypeof.append hts.1).append hequals).append (.of_unstructured hoperator)).append
      hquote
  · cases h

end L32.JavaScript
