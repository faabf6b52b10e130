import L32.JavaScript.Unparse
import L32.Proofs.JavaScript.Literals
import L32.Proofs.JavaScript.Strings

set_option autoImplicit false

/-! # Reading JavaScript expressions

`JavaScript.read?` reads the expressions that `Expr.toJavaScript` writes. It is a machine on
characters with a stack. Words and strings are put on the stack as they end; a closing parenthesis
takes everything down to the last opening one off the stack and puts one item in its place. What
that item is depends on what stood before the parenthesis, a callee or not, and on the marks inside:
`?`, `=>`, `,`, `;` or an operator. So nothing has to be known about the text to come.

`Reads t items` says that the text `t` puts just these items on the stack, whatever is on it and
whatever follows, as long as the text that follows cannot continue a word and the stack does not
end with a callee. It is kept by every way in which texts are put together (`Reads.append`,
`Reads.group`, `Reads.call`, `reads_joined`). -/

namespace L32.JavaScript

/-! ## Items -/

/-- What stands between expressions, or before them. -/
inductive Mark where
  | opening
  | comma
  | semicolon
  | question
  | colon
  | arrow
  | negation
  | typeOf
  /-- A type in quotes, by the name of the primitive operator that tests for it. -/
  | type (name : String)
  /-- An operator between its operands, by the name of the primitive operator. -/
  | between (name : String)
  deriving DecidableEq

/-- A part of a text that has been read. -/
inductive Item where
  | mark (m : Mark)
  | expr (e : Expr)
  /-- The parameters of a procedure, in their parentheses. -/
  | params (names : List String)
  /-- Several expressions in parentheses, as the body of a procedure. -/
  | body (es : List Expr)

namespace Item

def isMark (m : Mark) : Item → Bool
  | mark m' => m' = m
  | _ => false

@[simp] theorem isMark_mark (m m' : Mark) : (mark m').isMark m = decide (m' = m) := rfl

@[simp] theorem isMark_expr (m : Mark) (e : Expr) : (expr e).isMark m = false := rfl

@[simp] theorem isMark_params (m : Mark) (names : List String) :
    (params names).isMark m = false := rfl

@[simp] theorem isMark_body (m : Mark) (es : List Expr) : (body es).isMark m = false := rfl

end Item

/-- The items of expressions with a mark between each two of them. -/
def joined (m : Mark) : List Expr → List Item
  | [] => []
  | [e] => [.expr e]
  | e :: f :: es => .expr e :: .mark m :: joined m (f :: es)

/-- Expressions with the mark between them; one more mark at the end is let pass. -/
def separated? (m : Mark) : List Item → Option (List Expr)
  | [] => some []
  | [.expr e] => some [e]
  | .expr e :: .mark m' :: items => if m' = m then (separated? m items).map (e :: ·) else none
  | _ => none

theorem separated?_joined (m : Mark) (es : List Expr) : separated? m (joined m es) = some es := by
  fun_induction joined m es with
  | case1 => rfl
  | case2 e => rfl
  | case3 e f es ih =>
      rw [separated?, if_pos rfl, ih]
      rfl

/-- The application of an operator, without parentheses around it. -/
def operation? : List Item → Option Expr
  | [.mark .negation, .expr e] => some (.app (.prim "not") [e])
  | [.mark .typeOf, .expr e, .mark (.between _), .mark (.type name)] =>
    some (.app (.prim name) [e])
  | .expr e :: .mark (.between name) :: items =>
    (separated? (.between name) items).map fun es => .app (.prim name) (e :: es)
  | _ => none

def part? : List Item → Option Expr
  | [.expr e] => some e
  | items => operation? items

/-- A conditional, from what stands before its question mark and what stands behind it. -/
def conditional? (test branches : List Item) : Option Expr :=
  match branches.splitOnP (Item.isMark .colon) with
  | [yes, no] => do
    let t ← part? test
    let y ← part? yes
    let n ← part? no
    some (.cond t y n)
  | _ => none

def params? (items : List Item) : Option (List String) :=
  (separated? .comma items).bind fun es => es.mapM Expr.var?

/-- The items between two parentheses that are neither a call nor a conditional. -/
def simpleGroup? : List Item → Option Item
  | [.params names, .mark .arrow, .expr e] => some (.expr (.lambda names [e]))
  | [.params names, .mark .arrow, .body es] => some (.expr (.lambda names es))
  | items =>
    match params? items with
    | some names => some (.params names)
    | none =>
      match separated? .semicolon items with
      | some es => some (.body es)
      | none => (operation? items).map .expr

/-- The items between two parentheses that are no call. -/
def group? (items : List Item) : Option Item :=
  match items.splitOnP (Item.isMark .question) with
  | [test, branches] => (conditional? test branches).map .expr
  | _ => simpleGroup? items

def close? (stack : List Item) : Option (List Item) :=
  let items := (stack.takeWhile fun item => !item.isMark .opening).reverse
  match stack.dropWhile fun item => !item.isMark .opening with
  | [] => none
  | _ :: .expr callee :: below =>
    (separated? .comma items).map fun es => .expr (.app callee es) :: below
  | _ :: below => (group? items).map fun item => item :: below

/-! ## Words -/

def notANumber : Float := Float.ofBits 0x7FF8000000000000

def infinity (negative : Bool) : Float :=
  Float.ofBits (Double.signBits negative + Double.topField * Double.hidden).toUInt64

/-- The words that are neither numerals nor variables. -/
def fixedWord? : String → Option Item
  | "true" => some (.expr (.bool true))
  | "false" => some (.expr (.bool false))
  | "NaN" => some (.expr (.number notANumber))
  | "Infinity" => some (.expr (.number (infinity false)))
  | "-Infinity" => some (.expr (.number (infinity true)))
  | ";" => some (.mark .semicolon)
  | "?" => some (.mark .question)
  | ":" => some (.mark .colon)
  | "=>" => some (.mark .arrow)
  | "typeof" => some (.mark .typeOf)
  | "'number'" => some (.mark (.type "number?"))
  | "'boolean'" => some (.mark (.type "boolean?"))
  | "+" => some (.mark (.between "+"))
  | "-" => some (.mark (.between "-"))
  | "*" => some (.mark (.between "*"))
  | "/" => some (.mark (.between "/"))
  | "<" => some (.mark (.between "<"))
  | ">" => some (.mark (.between ">"))
  | "===" => some (.mark (.between "="))
  | "&&" => some (.mark (.between "and"))
  | "||" => some (.mark (.between "or"))
  | _ => none

def readNumber? (word : String) : Option Float :=
  match Json.readNumeral? word.toList with
  | some (n, []) => n.toFloat?
  | _ => none

/-- The item of a word: a number, a fixed word or else a variable. -/
def ofWord (word : String) : Item :=
  match readNumber? word with
  | some x => .expr (.number x)
  | none => (fixedWord? word).getD (.expr (.var word))

/-- The characters that end a word. -/
def isBreak (c : Char) : Bool :=
  c ∈ [' ', '(', ')', ',', '!', '"']

/-! ## The machine -/

/-- What is being read, with its characters so far, the last one first. -/
inductive Pending where
  | word (front : List Char)
  /-- The inside of a string. -/
  | text (front : List Char)
  /-- The inside of a string, after a backslash. -/
  | escape (front : List Char)

structure State where
  stack : List Item
  pending : Pending

/-- The stack with the word that has been read, if there is one. -/
def settle (stack : List Item) : List Char → List Item
  | [] => stack
  | c :: cs => ofWord (String.ofList (c :: cs).reverse) :: stack

/-- The string of what stands between two quotes. -/
def unescape? (raw : List Char) : Option String :=
  match Json.readString? (raw ++ ['"']) with
  | some (some s, []) => some s
  | _ => none

/-- A character that ends a word, which is on the stack already. -/
def breakWord? (stack : List Item) : Char → Option State
  | '(' => some ⟨.mark .opening :: stack, .word []⟩
  | ')' => (close? stack).map fun stack => ⟨stack, .word []⟩
  | ',' => some ⟨.mark .comma :: stack, .word []⟩
  | '!' => some ⟨.mark .negation :: stack, .word []⟩
  | '"' => some ⟨stack, .text []⟩
  | _ => some ⟨stack, .word []⟩

def step? : State → Char → Option State
  | ⟨stack, .word front⟩, c =>
    if isBreak c then breakWord? (settle stack front) c else some ⟨stack, .word (c :: front)⟩
  | ⟨stack, .text front⟩, c =>
    if c = '"' then
      (unescape? front.reverse).map fun s => ⟨.expr (.str s) :: stack, .word []⟩
    else if c = '\\' then some ⟨stack, .escape (c :: front)⟩
    else some ⟨stack, .text (c :: front)⟩
  | ⟨stack, .escape front⟩, c => some ⟨stack, .text (c :: front)⟩

def run? : State → List Char → Option State
  | s, [] => some s
  | s, c :: cs => (step? s c).bind fun s => run? s cs

/-- **The expression of a JavaScript text.** -/
def read? (text : String) : Option Expr :=
  match run? ⟨[], .word []⟩ (text.toList ++ [' ']) with
  | some ⟨[.expr e], .word []⟩ => some e
  | _ => none

/-! ## What a text puts on the stack -/

/-- Whether a parenthesis that opens now opens no call. -/
def isFree : List Item → Bool
  | .expr _ :: _ => false
  | _ => true

/-- **The text is read as these items**, on every free stack and in front of every character that
ends a word. -/
def Reads (t : String) (items : List Item) : Prop :=
  ∀ stack, isFree stack = true → ∀ c, isBreak c = true → ∀ rest,
    run? ⟨stack, .word []⟩ (t.toList ++ c :: rest)
      = run? ⟨items.reverse ++ stack, .word []⟩ (c :: rest)

/-- The text is read as a mark, on every stack and in front of every text. -/
def Marks (t : String) (m : Mark) : Prop :=
  ∀ stack rest, run? ⟨stack, .word []⟩ (t.toList ++ rest) = run? ⟨.mark m :: stack, .word []⟩ rest

theorem run?_word {w : List Char} (hw : ∀ c ∈ w, isBreak c = false) (stack : List Item)
    (front rest : List Char) :
    run? ⟨stack, .word front⟩ (w ++ rest) = run? ⟨stack, .word (w.reverse ++ front)⟩ rest := by
  induction w generalizing front with
  | nil => rfl
  | cons c w ih =>
      obtain ⟨hc, hw⟩ := List.forall_mem_cons.1 hw
      have hstep : step? ⟨stack, .word front⟩ c = some ⟨stack, .word (c :: front)⟩ := by
        simp [step?, hc]
      rw [List.cons_append, run?, hstep, Option.bind_some, ih hw, List.reverse_cons,
        List.append_assoc, List.singleton_append]

/-- A character that ends a word puts it on the stack. -/
theorem run?_break {c : Char} (hc : isBreak c = true) (stack : List Item)
    (front rest : List Char) :
    run? ⟨stack, .word front⟩ (c :: rest) = run? ⟨settle stack front, .word []⟩ (c :: rest) := by
  simp [run?, step?, hc, settle]

theorem settle_reverse {w : String} (hne : w ≠ "") (stack : List Item) :
    settle stack w.toList.reverse = ofWord w :: stack := by
  obtain ⟨c, cs, hcs⟩ : ∃ c cs, w.toList.reverse = c :: cs := by
    cases h : w.toList.reverse with
    | nil =>
        rw [List.reverse_eq_nil_iff, String.toList_eq_nil_iff] at h
        exact absurd h hne
    | cons c cs => exact ⟨c, cs, rfl⟩
  rw [hcs, settle, ← hcs, List.reverse_reverse, String.ofList_toList]

section Words

variable {w : String}

/-- **A word is read as its item.** -/
theorem reads_word (hne : w ≠ "") (hw : ∀ c ∈ w.toList, isBreak c = false) :
    Reads w [ofWord w] := by
  intro stack _ c hc rest
  rw [run?_word hw, List.append_nil, run?_break hc, settle_reverse hne]
  rfl

theorem marks_word {m : Mark} (hne : w ≠ "") (hw : ∀ c ∈ w.toList, isBreak c = false)
    (hm : ofWord w = .mark m) : Marks (w ++ " ") m := by
  intro stack rest
  have hspace : (w ++ " ").toList ++ rest = w.toList ++ ' ' :: rest := by
    rw [String.toList_append, List.append_assoc]
    rfl
  rw [hspace, run?_word hw, List.append_nil, run?_break rfl, settle_reverse hne, hm]
  rfl

/-- A word between two blanks. -/
theorem marks_between {m : Mark} (hne : w ≠ "") (hw : ∀ c ∈ w.toList, isBreak c = false)
    (hm : ofWord w = .mark m) : Marks (" " ++ w ++ " ") m := by
  intro stack rest
  rw [String.append_assoc, String.toList_append, List.append_assoc]
  exact marks_word hne hw hm stack rest

end Words

theorem marks_comma : Marks "," .comma := fun _ _ => rfl

theorem marks_negation : Marks "!" .negation := fun _ _ => rfl

/-! ## Strings -/

/-- What stands between two quotes is passed over up to the closing one. -/
theorem run?_quotable {body : List Char} (h : Quotable body) (stack : List Item)
    (front rest : List Char) :
    run? ⟨stack, .text front⟩ (body ++ rest)
      = run? ⟨stack, .text (body.reverse ++ front)⟩ rest := by
  induction h generalizing front with
  | nil => rfl
  | @char c cs hquote hslash _ ih =>
      have hstep : step? ⟨stack, .text front⟩ c = some ⟨stack, .text (c :: front)⟩ := by
        simp [step?, hquote, hslash]
      rw [List.cons_append, run?, hstep, Option.bind_some, ih, List.reverse_cons,
        List.append_assoc, List.singleton_append]
  | @escape c cs _ ih =>
      show run? ⟨stack, .text (c :: '\\' :: front)⟩ (cs ++ rest) = _
      rw [ih]
      simp

theorem unescape?_escape (cs : List Char) :
    unescape? (cs.flatMap escape) = some (String.ofList cs) := by
  unfold unescape?
  rw [Json.readString?_flatMap spelled_escape]

/-- **A string literal is read as its string.** -/
theorem reads_stringText (s : String) : Reads (stringText s) [.expr (.str s)] := by
  intro stack _ c hc rest
  have htext : (stringText s).toList ++ c :: rest
      = '"' :: (s.toList.flatMap escape ++ '"' :: c :: rest) := by
    simp [stringText, escapeWith]
  have hend : step? ⟨stack, .text (s.toList.flatMap escape).reverse⟩ '"'
      = some ⟨.expr (.str s) :: stack, .word []⟩ := by
    simp [step?, unescape?_escape]
  rw [htext]
  show run? ⟨stack, .text []⟩ (s.toList.flatMap escape ++ '"' :: c :: rest) = _
  rw [run?_quotable (quotable_flatMap_escape _), List.append_nil, run?, hend]
  rfl

/-! ## Texts put together -/

theorem run?_close {stack closed : List Item} (h : close? stack = some closed)
    (rest : List Char) :
    run? ⟨stack, .word []⟩ (')' :: rest) = run? ⟨closed, .word []⟩ rest := by
  show ((close? stack).map fun stack => State.mk stack (.word [])).bind _ = _
  rw [h]
  rfl

namespace Reads

variable {t u : String} {items others : List Item}

theorem nil : Reads "" [] := fun _ _ _ _ _ => rfl

/-- Two texts with a mark between them, which ends a word. -/
theorem append {separator : String} {m : Mark} (ht : Reads t items)
    (hbreak : ∃ c cs, separator.toList = c :: cs ∧ isBreak c = true) (hm : Marks separator m)
    (hu : Reads u others) : Reads (t ++ separator ++ u) (items ++ .mark m :: others) := by
  intro stack hfree c hc rest
  obtain ⟨b, bs, hbs, hb⟩ := hbreak
  calc run? ⟨stack, .word []⟩ ((t ++ separator ++ u).toList ++ c :: rest)
      = run? ⟨stack, .word []⟩ (t.toList ++ b :: (bs ++ (u.toList ++ c :: rest))) := by
        simp [hbs]
    _ = run? ⟨items.reverse ++ stack, .word []⟩ (separator.toList ++ (u.toList ++ c :: rest)) := by
        rw [ht stack hfree b hb, hbs, List.cons_append]
    _ = run? ⟨.mark m :: (items.reverse ++ stack), .word []⟩ (u.toList ++ c :: rest) := hm _ _
    _ = run? ⟨others.reverse ++ .mark m :: (items.reverse ++ stack), .word []⟩ (c :: rest) :=
        hu _ rfl c hc rest
    _ = run? ⟨(items ++ .mark m :: others).reverse ++ stack, .word []⟩ (c :: rest) := by simp

/-- A text with a mark in front of it. -/
theorem lead {lead : String} {m : Mark} (hm : Marks lead m) (ht : Reads t items) :
    Reads (lead ++ t) (.mark m :: items) := by
  intro stack _ c hc rest
  rw [String.toList_append, List.append_assoc, hm, ht _ rfl c hc, List.reverse_cons,
    List.append_assoc, List.singleton_append]

/-- The parenthesis that closes a group finds the one that opened it. -/
theorem takeWhile_append (h : ∀ i ∈ items, i.isMark .opening = false) (below : List Item) :
    ((items.reverse ++ .mark .opening :: below).takeWhile fun i => !i.isMark .opening)
        = items.reverse
      ∧ ((items.reverse ++ .mark .opening :: below).dropWhile fun i => !i.isMark .opening)
        = .mark .opening :: below := by
  have hreverse : ∀ i ∈ items.reverse, (!i.isMark .opening) = true := by
    intro i hi
    rw [h i (List.mem_reverse.1 hi)]
    rfl
  rw [List.takeWhile_append_of_pos hreverse, List.dropWhile_append_of_pos hreverse]
  simp

/-- **A text in parentheses is read as one item.** -/
theorem group (ht : Reads t items) (hopen : ∀ i ∈ items, i.isMark .opening = false) {item : Item}
    (hgroup : group? items = some item) : Reads ("(" ++ t ++ ")") [item] := by
  intro stack hfree c hc rest
  obtain ⟨htake, hdrop⟩ := takeWhile_append hopen stack
  have hclose : close? (items.reverse ++ .mark .opening :: stack) = some (item :: stack) := by
    unfold close?
    rw [htake, hdrop, List.reverse_reverse]
    -- the stack is free, so this is no call
    cases stack with
    | nil => simp [hgroup]
    | cons below stack =>
        cases below with
        | expr e => cases hfree
        | mark m => simp [hgroup]
        | params names => simp [hgroup]
        | body es => simp [hgroup]
  calc run? ⟨stack, .word []⟩ (("(" ++ t ++ ")").toList ++ c :: rest)
      = run? ⟨.mark .opening :: stack, .word []⟩ (t.toList ++ ')' :: c :: rest) := by
        rw [String.toList_append, String.toList_append, List.append_assoc, List.append_assoc]
        rfl
    _ = run? ⟨items.reverse ++ .mark .opening :: stack, .word []⟩ (')' :: c :: rest) :=
        ht _ rfl ')' rfl _
    _ = run? ⟨item :: stack, .word []⟩ (c :: rest) := run?_close hclose _

/-- **A call is read as the application of its callee.** -/
theorem call {callee : String} {f : Expr} (hf : Reads callee [.expr f]) (ht : Reads t items)
    (hopen : ∀ i ∈ items, i.isMark .opening = false) {es : List Expr}
    (hes : separated? .comma items = some es) :
    Reads (callee ++ "(" ++ t ++ ")") [.expr (.app f es)] := by
  intro stack hfree c hc rest
  obtain ⟨htake, hdrop⟩ := takeWhile_append hopen (.expr f :: stack)
  have hclose : close? (items.reverse ++ .mark .opening :: .expr f :: stack)
      = some (.expr (.app f es) :: stack) := by
    unfold close?
    rw [htake, hdrop, List.reverse_reverse]
    simp [hes]
  calc run? ⟨stack, .word []⟩ ((callee ++ "(" ++ t ++ ")").toList ++ c :: rest)
      = run? ⟨stack, .word []⟩ (callee.toList ++ '(' :: (t.toList ++ ')' :: c :: rest)) := by
        simp
    _ = run? ⟨.expr f :: stack, .word []⟩ ('(' :: (t.toList ++ ')' :: c :: rest)) :=
        hf stack hfree '(' rfl _
    _ = run? ⟨items.reverse ++ .mark .opening :: .expr f :: stack, .word []⟩ (')' :: c :: rest) :=
        ht _ rfl ')' rfl _
    _ = run? ⟨.expr (.app f es) :: stack, .word []⟩ (c :: rest) := run?_close hclose _

/-- A text that is read as one expression is the text of that expression. -/
theorem read?_eq {e : Expr} (h : Reads t [.expr e]) : read? t = some e := by
  unfold read?
  rw [h [] rfl ' ' rfl []]
  rfl

end Reads

/-- **Texts with a separator between them** are read one by one. -/
theorem reads_joined {separator : String} {m : Mark}
    (hbreak : ∃ c cs, separator.toList = c :: cs ∧ isBreak c = true) (hm : Marks separator m)
    {ts : List String} {es : List Expr} (h : List.Forall₂ (fun t e => Reads t [.expr e]) ts es) :
    Reads (joinWith separator ts) (joined m es) := by
  induction h with
  | nil => exact .nil
  | cons ht hts ih =>
      cases hts with
      | nil => exact ht
      | cons hu hus => exact ht.append hbreak hm ih

end L32.JavaScript
