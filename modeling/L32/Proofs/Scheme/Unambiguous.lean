import L32.Proofs.Number.Plain
import L32.Proofs.Scheme.Lines

set_option autoImplicit false

/-! # The text of a datum is unambiguous

A name is written as it is, so a symbol may look like anything: like a number, like two symbols,
like the point in front of a dotted tail. If no symbol does (`Datum.Readable`), then the text of a
datum determines the datum, and that is the main statement `scheme_text_determines_datum`.

The text of a datum is followed by more text when the datum is part of another, so what is proved by
induction is that the text determines the datum and where it ends, whatever follows
(`textApart_and_tailApart`). The first character tells lists, strings and words apart. A word goes
on to the next delimiter (`takeWhile_word`), a string to the next quote that is not escaped
(`readString_escape`), and a list ends with its tail: behind the first member of a chain there is
another member, or a point, or the closing parenthesis. -/

namespace L32

namespace SchemeText

/-! ## Words -/

/-- The characters that end a word. -/
def isDelimiter (c : Char) : Bool :=
  c ∈ [' ', '(', ')', '"']

/-- The text that follows a word, from the delimiter on. -/
def Stops (cs : List Char) : Prop :=
  ∀ c ∈ cs.head?, isDelimiter c = true

theorem stops_nil : Stops [] := by
  intro c hc
  cases hc

theorem stops_cons {c : Char} (h : isDelimiter c = true) (cs : List Char) : Stops (c :: cs) := by
  intro d hd
  obtain rfl : c = d := Option.some.inj hd
  exact h

def Undelimited (cs : List Char) : Prop :=
  ∀ c ∈ cs, isDelimiter c = false

/-- A word goes on to the next delimiter. -/
theorem takeWhile_word {w rest : List Char} (hw : Undelimited w) (hrest : Stops rest) :
    (w ++ rest).takeWhile (fun c => !isDelimiter c) = w := by
  have hnone : rest.takeWhile (fun c => !isDelimiter c) = [] := by
    cases rest with
    | nil => rfl
    | cons c cs => simp [hrest c rfl]
  rw [List.takeWhile_append_of_pos (fun c hc => by simp [hw c hc]), hnone, List.append_nil]

theorem word_append_inj {w w' rest rest' : List Char} (hw : Undelimited w) (hw' : Undelimited w')
    (hrest : Stops rest) (hrest' : Stops rest') (h : w ++ rest = w' ++ rest') :
    w = w' ∧ rest = rest' := by
  obtain rfl : w = w' := by
    rw [← takeWhile_word hw hrest, h, takeWhile_word hw' hrest']
  exact ⟨rfl, List.append_cancel_left h⟩

/-- A text that is taken for one word. A lone point is not, because it announces the tail of a
dotted chain. -/
structure IsWord (t : String) : Prop where
  ne_empty : t ≠ ""
  undelimited : Undelimited t.toList
  ne_point : t ≠ "."

theorem IsWord.exists_toList_eq_cons {t : String} (ht : IsWord t) :
    ∃ c cs, t.toList = c :: cs ∧ isDelimiter c = false := by
  cases hcs : t.toList with
  | nil => exact absurd (String.toList_eq_nil_iff.1 hcs) ht.ne_empty
  | cons c cs => exact ⟨c, cs, rfl, ht.undelimited c (by rw [hcs]; exact List.mem_cons_self)⟩

/-! ## Numbers and truth values -/

/-- A text with a character that no finite number has is not that of a finite number. -/
theorem plain_ne {d : Decimal} {t : String} {c : Char} (hc : c ∈ t.toList)
    (hplain : c ∉ plainChars) : d.plain ≠ t := by
  rintro rfl
  exact hplain (mem_plainChars hc)

theorem plain_ne_notANumber (d : Decimal) : d.plain ≠ "NaN" :=
  plain_ne (c := 'N') (by decide) (by decide)

theorem plain_ne_infinite (d : Decimal) (negative : Bool) :
    d.plain ≠ if negative then "-inf" else "inf" := by
  cases negative with
  | true => exact plain_ne (c := 'i') (by decide) (by decide)
  | false => exact plain_ne (c := 'i') (by decide) (by decide)

/-- **The text of a number determines the number.** -/
theorem ofNumber_injective {x y : Float} (h : ofNumber x = ofNumber y) : x = y := by
  unfold ofNumber at h
  -- the letters of the special texts are in no finite number, so the kinds agree
  cases hx : Double.ofFloat x with
  | notANumber =>
      cases hy : Double.ofFloat y with
      | notANumber => exact Double.eq_of_ofFloat_notANumber hx hy
      | infinite negative =>
          rw [hx, hy] at h
          exact absurd h (by cases negative <;> decide)
      | finite negative mantissa exponent =>
          rw [hx, hy] at h
          exact absurd h.symm (plain_ne_notANumber _)
  | infinite negative =>
      cases hy : Double.ofFloat y with
      | notANumber =>
          rw [hx, hy] at h
          exact absurd h (by cases negative <;> decide)
      | infinite negative' =>
          rw [hx, hy] at h
          have hnegative : negative = negative' := by
            revert h
            cases negative <;> cases negative' <;> decide
          rw [Double.eq_of_ofFloat_infinite hx, Double.eq_of_ofFloat_infinite hy, hnegative]
      | finite negative' mantissa exponent =>
          rw [hx, hy] at h
          exact absurd h.symm (plain_ne_infinite _ negative)
  | finite negative mantissa exponent =>
      cases hy : Double.ofFloat y with
      | notANumber =>
          rw [hx, hy] at h
          exact absurd h (plain_ne_notANumber _)
      | infinite negative' =>
          rw [hx, hy] at h
          exact absurd h (plain_ne_infinite _ negative')
      | finite negative' mantissa' exponent' =>
          rw [hx, hy] at h
          exact eq_of_plain_shortest_eq hx hy h

/-- A number starts with a sign, a digit or a letter, and not with a point. -/
theorem exists_ofNumber_eq_cons (x : Float) :
    ∃ c cs, (ofNumber x).toList = c :: cs ∧ c ≠ '.' := by
  unfold ofNumber
  cases hx : Double.ofFloat x with
  | notANumber => exact ⟨_, _, rfl, by decide⟩
  | infinite negative => cases negative <;> exact ⟨_, _, rfl, by decide⟩
  | finite negative mantissa exponent =>
      have hdigit : ∀ d : Digit, d.toChar ≠ '.' := by decide
      dsimp only
      rw [Decimal.plain_shortest_eq_text _ _ (Double.finite_of_ofFloat hx).1]
      obtain ⟨c, cs, htext, hc⟩ := Json.exists_toList_text_eq_cons
        (Decimal.shortest .up negative mantissa exponent).plainNumeral
      refine ⟨c, cs, htext, ?_⟩
      rcases hc with rfl | ⟨d, rfl⟩
      · decide
      · exact hdigit d

theorem isWord_ofNumber (x : Float) : IsWord (ofNumber x) := by
  have hchars : Undelimited numberChars := by
    simp [Undelimited, numberChars, plainChars, isDelimiter]
  obtain ⟨c, cs, htext, hc⟩ := exists_ofNumber_eq_cons x
  refine ⟨?_, fun c hc => hchars c (mem_numberChars hc), ?_⟩
  · intro hempty
    rw [hempty] at htext
    cases htext
  · intro hpoint
    rw [hpoint] at htext
    exact hc (List.cons.inj htext).1.symm

theorem isWord_ofBool (b : Bool) : IsWord (ofBool b) := by
  cases b with
  | true => exact ⟨by decide, by simp [Undelimited, ofBool, isDelimiter], by decide⟩
  | false => exact ⟨by decide, by simp [Undelimited, ofBool, isDelimiter], by decide⟩

theorem ofBool_injective {a b : Bool} (h : ofBool a = ofBool b) : a = b := by
  revert h
  cases a <;> cases b <;> decide

theorem ofNumber_ne_ofBool (x : Float) (b : Bool) : ofNumber x ≠ ofBool b := by
  intro h
  have hmark : '#' ∈ (ofBool b).toList := by cases b <;> decide
  have hnone : '#' ∉ numberChars := by decide
  rw [← h] at hmark
  exact hnone (mem_numberChars hmark)

/-! ## Strings -/

/-- The character for which the one behind a backslash stands. -/
def unescape : Char → Char
  | 'n' => '\n'
  | 'r' => '\r'
  | 't' => '\t'
  | c => c

def readString : List Char → List Char × List Char
  | [] => ([], [])
  | '"' :: rest => ([], rest)
  | '\\' :: c :: rest => (readString rest).map (unescape c :: ·) id
  | c :: rest => (readString rest).map (c :: ·) id

/-- One character is read back, and the others behind it are read in the same way. -/
theorem readString_escape_append (c : Char) (rest : List Char) :
    readString (escape c ++ rest) = (readString rest).map (c :: ·) id := by
  unfold escape
  split
  · rfl
  · rfl
  · rfl
  · rfl
  · rfl
  · rename_i hslash hquote _ _ _
    rw [List.singleton_append, readString]
    · exact hquote
    · exact fun _ _ hc _ => hslash hc

/-- **A string is read back**, with the text that follows it. -/
theorem readString_escape (cs rest : List Char) :
    readString (cs.flatMap escape ++ '"' :: rest) = (cs, rest) := by
  induction cs with
  | nil => rfl
  | cons c cs ih =>
      rw [List.flatMap_cons, List.append_assoc, readString_escape_append, ih]
      rfl

theorem toList_ofString (s : String) :
    (ofString s).toList = '"' :: (s.toList.flatMap escape ++ ['"']) := by
  simp [ofString, escapeWith, String.toList_append]

theorem ofString_append_inj {s s' : String} {rest rest' : List Char}
    (h : (ofString s).toList ++ rest = (ofString s').toList ++ rest') : s = s' ∧ rest = rest' := by
  rw [toList_ofString, toList_ofString] at h
  simp only [List.cons_append, List.append_assoc, List.nil_append, List.cons.injEq, true_and] at h
  have hread := congrArg readString h
  rw [readString_escape, readString_escape, Prod.mk.injEq] at hread
  exact ⟨String.toList_inj.1 hread.1, hread.2⟩

/-! ## Symbols -/

/-- A word that looks like no truth value and like no number. -/
structure ReadsAsSymbol (name : String) : Prop extends IsWord name where
  ne_bool : ∀ b, name ≠ ofBool b
  ne_number : ∀ x, name ≠ ofNumber x

/-- One character that no number has will do. -/
theorem IsWord.readsAsSymbol {name : String} (hname : IsWord name) (hbool : ∀ b, name ≠ ofBool b)
    {c : Char} (hc : c ∈ name.toList) (hnumber : c ∉ numberChars) : ReadsAsSymbol name := by
  refine ⟨hname, hbool, ?_⟩
  rintro x rfl
  exact hnumber (mem_numberChars hc)

end SchemeText

/-! ## Data -/

namespace Datum

open SchemeText

theorem toList_toScheme_pair (h t : Datum) :
    (pair h t).toScheme.toList = '(' :: (h.toScheme.toList ++ t.tailText.toList) := by
  rw [toScheme, String.toList_append, String.toList_append]
  rfl

theorem toList_tailText_pair (h t : Datum) :
    (pair h t).tailText.toList = ' ' :: (h.toScheme.toList ++ t.tailText.toList) := by
  rw [tailText, String.toList_append, String.toList_append]
  rfl

theorem toList_tailText_of_isAtom {d : Datum} (h : d.isAtom = true) :
    d.tailText.toList = ' ' :: '.' :: ' ' :: (d.toScheme.toList ++ [')']) := by
  have htext : d.tailText = " . " ++ d.toScheme ++ ")" := by
    cases d with
    | symbol _ | number _ | bool _ | str _ => rfl
    | pair _ _ | empty => cases h
  rw [htext, String.toList_append, String.toList_append]
  rfl

theorem stops_tailText (d : Datum) (rest : List Char) : Stops (d.tailText.toList ++ rest) := by
  cases d with
  | pair h t =>
      rw [toList_tailText_pair]
      exact stops_cons (by decide) _
  | empty => exact stops_cons (c := ')') (by decide) rest
  | symbol _ | number _ | bool _ | str _ =>
      rw [toList_tailText_of_isAtom rfl]
      exact stops_cons (by decide) _

/-! ### How a value is written -/

/-- All symbols in it look like symbols. -/
def Readable (d : Datum) : Prop :=
  d.AllAtoms (Named ReadsAsSymbol)

theorem readable_pair {h t : Datum} : (pair h t).Readable ↔ h.Readable ∧ t.Readable :=
  allAtoms_pair

theorem readable_symbol {name : String} : (symbol name).Readable ↔ ReadsAsSymbol name :=
  allAtoms_symbol

/-- The three ways in which data is written. -/
inductive Shape where
  | list
  | string
  | word

/-- How a text is written that starts with this character. -/
def Shape.ofChar (c : Char) : Shape :=
  if c = '(' then .list else if c = '"' then .string else .word

def shape : Datum → Shape
  | pair _ _ | empty => .list
  | str _ => .string
  | symbol _ | number _ | bool _ => .word

theorem Shape.ofChar_of_not_isDelimiter {c : Char} (h : isDelimiter c = false) :
    Shape.ofChar c = .word ∧ c ≠ ')' := by
  simp only [isDelimiter, decide_eq_false_iff_not, List.mem_cons, List.not_mem_nil, or_false,
    not_or] at h
  obtain ⟨_, hopen, hclose, hquote⟩ := h
  exact ⟨by rw [Shape.ofChar, if_neg hopen, if_neg hquote], hclose⟩

/-- What is written as a word is a word. -/
theorem isWord_toScheme {d : Datum} (hd : d.Readable) (hshape : d.shape = .word) :
    IsWord d.toScheme := by
  cases d with
  | symbol name => exact (readable_symbol.1 hd).toIsWord
  | number x => exact isWord_ofNumber x
  | bool b => exact isWord_ofBool b
  | str _ | pair _ _ | empty => cases hshape

/-- The first character says how the value is written, and it is not a closing parenthesis. -/
theorem exists_toScheme_eq_cons {d : Datum} (hd : d.Readable) :
    ∃ c cs, d.toScheme.toList = c :: cs ∧ Shape.ofChar c = d.shape ∧ c ≠ ')' := by
  cases hshape : d.shape with
  | word =>
      obtain ⟨c, cs, htext, hc⟩ := (isWord_toScheme hd hshape).exists_toList_eq_cons
      exact ⟨c, cs, htext, Shape.ofChar_of_not_isDelimiter hc⟩
  | string =>
      cases d with
      | str s => exact ⟨_, _, toList_ofString s, rfl, by decide⟩
      | symbol _ | number _ | bool _ | pair _ _ | empty => cases hshape
  | list =>
      cases d with
      | pair h t => exact ⟨_, _, toList_toScheme_pair h t, rfl, by decide⟩
      | empty => exact ⟨_, _, rfl, rfl, by decide⟩
      | symbol _ | number _ | bool _ | str _ => cases hshape

theorem shape_eq_of_append_eq {d d' : Datum} (hd : d.Readable) (hd' : d'.Readable)
    {rest rest' : List Char} (h : d.toScheme.toList ++ rest = d'.toScheme.toList ++ rest') :
    d.shape = d'.shape := by
  obtain ⟨c, cs, htext, hshape, _⟩ := exists_toScheme_eq_cons hd
  obtain ⟨c', cs', htext', hshape', _⟩ := exists_toScheme_eq_cons hd'
  rw [htext, htext', List.cons_append, List.cons_append] at h
  rw [← hshape, ← hshape', (List.cons.inj h).1]

/-- Two values that are written as the same word are the same. -/
theorem eq_of_toScheme_eq_of_word {d d' : Datum} (hd : d.Readable) (hd' : d'.Readable)
    (hshape : d.shape = .word) (hshape' : d'.shape = .word) (h : d.toScheme = d'.toScheme) :
    d = d' := by
  cases d with
  | symbol name =>
      cases d' with
      | symbol name' => exact congrArg symbol h
      | number x => exact absurd h ((readable_symbol.1 hd).ne_number x)
      | bool b => exact absurd h ((readable_symbol.1 hd).ne_bool b)
      | str _ | pair _ _ | empty => cases hshape'
  | number x =>
      cases d' with
      | symbol name => exact absurd h.symm ((readable_symbol.1 hd').ne_number x)
      | number y => exact congrArg number (ofNumber_injective h)
      | bool b => exact absurd h (ofNumber_ne_ofBool x b)
      | str _ | pair _ _ | empty => cases hshape'
  | bool b =>
      cases d' with
      | symbol name => exact absurd h.symm ((readable_symbol.1 hd').ne_bool b)
      | number x => exact absurd h.symm (ofNumber_ne_ofBool x b)
      | bool b' => exact congrArg bool (ofBool_injective h)
      | str _ | pair _ _ | empty => cases hshape'
  | str _ | pair _ _ | empty => cases hshape

/-! ### Data told apart -/

/-- No value is written as a lone point, so a member of a chain is not taken for the point in front
of a tail. -/
theorem toScheme_append_ne_point {d : Datum} (hd : d.Readable) {rest : List Char}
    (hrest : Stops rest) (cs : List Char) : d.toScheme.toList ++ rest ≠ '.' :: ' ' :: cs := by
  intro h
  obtain ⟨c, ds, htext, hshape, _⟩ := exists_toScheme_eq_cons hd
  -- what starts with a point is a word, and this one ends at the blank
  have hword : d.shape = .word := by
    rw [htext, List.cons_append] at h
    rw [← hshape, (List.cons.inj h).1]
    rfl
  have hpoint : Undelimited ".".toList := by simp [Undelimited, isDelimiter]
  have hblank : Stops (' ' :: cs) := stops_cons (by decide) cs
  obtain ⟨htext, _⟩ :=
    word_append_inj (isWord_toScheme hd hword).undelimited hpoint hrest hblank h
  exact (isWord_toScheme hd hword).ne_point (String.toList_inj.1 htext)

/-- No other value has this text, and the text ends in one place only, whatever follows. -/
def TextApart (d : Datum) : Prop :=
  ∀ d' : Datum, d'.Readable → ∀ rest rest', Stops rest → Stops rest' →
    d.toScheme.toList ++ rest = d'.toScheme.toList ++ rest' → d = d' ∧ rest = rest'

/-- The same for the text behind the first member of a chain. It has its own end, so anything may
follow. -/
def TailApart (d : Datum) : Prop :=
  ∀ d' : Datum, d'.Readable → ∀ rest rest',
    d.tailText.toList ++ rest = d'.tailText.toList ++ rest' → d = d' ∧ rest = rest'

theorem textApart_of_word {d : Datum} (hd : d.Readable) (hshape : d.shape = .word) :
    d.TextApart := by
  intro d' hd' rest rest' hrest hrest' h
  have hshape' : d'.shape = .word := (shape_eq_of_append_eq hd hd' h).symm.trans hshape
  obtain ⟨htext, hrests⟩ := word_append_inj (isWord_toScheme hd hshape).undelimited
    (isWord_toScheme hd' hshape').undelimited hrest hrest' h
  exact ⟨eq_of_toScheme_eq_of_word hd hd' hshape hshape' (String.toList_inj.1 htext), hrests⟩

theorem textApart_str {s : String} (hd : (str s).Readable) : (str s).TextApart := by
  intro d' hd' rest rest' _ _ h
  have hshape := shape_eq_of_append_eq hd hd' h
  cases d' with
  | str s' =>
      obtain ⟨hs, hrests⟩ := ofString_append_inj h
      exact ⟨congrArg str hs, hrests⟩
  | symbol _ | number _ | bool _ | pair _ _ | empty => cases hshape

/-- The empty list has a closing parenthesis where a chain has its first member. -/
theorem pair_append_ne_empty {h t : Datum} (hh : h.Readable) (rest rest' : List Char) :
    (pair h t).toScheme.toList ++ rest ≠ empty.toScheme.toList ++ rest' := by
  intro heq
  obtain ⟨c, cs, htext, _, hclose⟩ := exists_toScheme_eq_cons hh
  have hempty : empty.toScheme.toList = ['(', ')'] := rfl
  rw [toList_toScheme_pair, htext, hempty] at heq
  exact hclose (List.cons.inj (List.cons.inj heq).2).1

theorem textApart_empty (hd : empty.Readable) : empty.TextApart := by
  intro d' hd' rest rest' _ _ h
  have hshape := shape_eq_of_append_eq hd hd' h
  cases d' with
  | pair h' t' => exact absurd h.symm (pair_append_ne_empty (readable_pair.1 hd').1 _ _)
  | empty => exact ⟨rfl, List.append_cancel_left h⟩
  | symbol _ | number _ | bool _ | str _ => cases hshape

/-- The members of two pairs are told apart one after the other. -/
theorem eq_of_members_append_eq {h t h' t' : Datum} (hh : h.TextApart) (ht : t.TailApart)
    (hd' : (pair h' t').Readable) {rest rest' : List Char}
    (heq : h.toScheme.toList ++ t.tailText.toList ++ rest
      = h'.toScheme.toList ++ t'.tailText.toList ++ rest') :
    pair h t = pair h' t' ∧ rest = rest' := by
  obtain ⟨hh', ht'⟩ := readable_pair.1 hd'
  rw [List.append_assoc, List.append_assoc] at heq
  -- every tail starts with a delimiter, so the heads end in the same place
  obtain ⟨rfl, htails⟩ :=
    hh h' hh' _ _ (stops_tailText t rest) (stops_tailText t' rest') heq
  obtain ⟨rfl, hrests⟩ := ht t' ht' _ _ htails
  exact ⟨rfl, hrests⟩

theorem textApart_pair {h t : Datum} (hd : (pair h t).Readable) (hh : h.TextApart)
    (ht : t.TailApart) : (pair h t).TextApart := by
  intro d' hd' rest rest' _ _ heq
  have hshape := shape_eq_of_append_eq hd hd' heq
  cases d' with
  | pair h' t' =>
      rw [toList_toScheme_pair, toList_toScheme_pair] at heq
      exact eq_of_members_append_eq hh ht hd' (List.cons.inj heq).2
  | empty => exact absurd heq (pair_append_ne_empty (readable_pair.1 hd).1 _ _)
  | symbol _ | number _ | bool _ | str _ => cases hshape

/-- A member of a chain is not taken for a dotted tail. -/
theorem pair_tailText_append_ne_atom {h t d : Datum} (hh : h.Readable) (hd : d.isAtom = true)
    (rest rest' : List Char) :
    (pair h t).tailText.toList ++ rest ≠ d.tailText.toList ++ rest' := by
  intro heq
  rw [toList_tailText_pair, toList_tailText_of_isAtom hd] at heq
  simp only [List.cons_append, List.append_assoc, List.cons.injEq, true_and] at heq
  exact toScheme_append_ne_point hh (stops_tailText t rest) _ heq

/-- The end of a proper list is not taken for anything that starts with a blank. -/
theorem eq_empty_of_tailText_append_eq {d : Datum} {rest rest' : List Char}
    (h : empty.tailText.toList ++ rest = d.tailText.toList ++ rest') : d = empty := by
  have hempty : empty.tailText.toList = [')'] := rfl
  rw [hempty] at h
  cases d with
  | empty => rfl
  | pair h' t' =>
      rw [toList_tailText_pair] at h
      cases h
  | symbol _ | number _ | bool _ | str _ =>
      rw [toList_tailText_of_isAtom rfl] at h
      cases h

theorem tailApart_empty : empty.TailApart := by
  intro d' _ rest rest' h
  obtain rfl := eq_empty_of_tailText_append_eq h
  exact ⟨rfl, List.append_cancel_left h⟩

theorem tailApart_pair {h t : Datum} (hd : (pair h t).Readable) (hh : h.TextApart)
    (ht : t.TailApart) : (pair h t).TailApart := by
  intro d' hd' rest rest' heq
  cases d' with
  | pair h' t' =>
      rw [toList_tailText_pair, toList_tailText_pair] at heq
      exact eq_of_members_append_eq hh ht hd' (List.cons.inj heq).2
  | empty => cases eq_empty_of_tailText_append_eq heq.symm
  | symbol _ | number _ | bool _ | str _ =>
      exact absurd heq (pair_tailText_append_ne_atom (readable_pair.1 hd).1 rfl _ _)

/-- Behind the point stands the text of an atom, and the closing parenthesis ends it. -/
theorem tailApart_of_isAtom {d : Datum} (hatom : d.isAtom = true) (hd : d.TextApart) :
    d.TailApart := by
  intro d' hd' rest rest' heq
  have hclose : ∀ cs, Stops (')' :: cs) := fun cs => stops_cons (by decide) cs
  cases d' with
  | pair h' t' =>
      exact absurd heq.symm (pair_tailText_append_ne_atom (readable_pair.1 hd').1 hatom _ _)
  | empty =>
      obtain rfl := eq_empty_of_tailText_append_eq heq.symm
      cases hatom
  | symbol _ | number _ | bool _ | str _ =>
      rw [toList_tailText_of_isAtom hatom, toList_tailText_of_isAtom rfl] at heq
      simp only [List.cons_append, List.append_assoc, List.nil_append, List.cons.injEq,
        true_and] at heq
      obtain ⟨hdatum, hrests⟩ := hd _ hd' _ _ (hclose rest) (hclose rest') heq
      exact ⟨hdatum, (List.cons.inj hrests).2⟩

/-- **Texts tell data apart, and so do tails.** Both are proved at once, since the text of a pair
has the tail of another value in it and a tail has texts in it. -/
theorem textApart_and_tailApart (d : Datum) (hd : d.Readable) : d.TextApart ∧ d.TailApart := by
  induction d with
  | symbol _ | number _ | bool _ =>
      have htext := textApart_of_word hd rfl
      exact ⟨htext, tailApart_of_isAtom rfl htext⟩
  | str s =>
      have htext := textApart_str hd
      exact ⟨htext, tailApart_of_isAtom rfl htext⟩
  | empty => exact ⟨textApart_empty hd, tailApart_empty⟩
  | pair h t ihh iht =>
      obtain ⟨hh, ht⟩ := readable_pair.1 hd
      exact ⟨textApart_pair hd (ihh hh).1 (iht ht).2, tailApart_pair hd (ihh hh).1 (iht ht).2⟩

end Datum

/-- **Two data with the same text are the same**, whatever their strings hold and however their
pairs are nested and dotted, if their symbols look like symbols: none is empty, none has a blank, a
parenthesis or a quote in it, and none is a lone point, a truth value or a number. Of the doubles
that are not a number there is only one. -/
theorem scheme_text_determines_datum {d₁ d₂ : Datum} (h₁ : d₁.Readable) (h₂ : d₂.Readable) :
    d₁.toScheme = d₂.toScheme ↔ d₁ = d₂ := by
  constructor
  · intro h
    have hchars : d₁.toScheme.toList ++ [] = d₂.toScheme.toList ++ [] := by rw [h]
    exact ((Datum.textApart_and_tailApart d₁ h₁).1 d₂ h₂ [] [] SchemeText.stops_nil
      SchemeText.stops_nil hchars).1
  · rintro rfl
    rfl

/-- A point among the symbols makes the texts of two data the same. -/
example : (Datum.ofList [.symbol "x", .symbol ".", .symbol "y"]).toScheme
    = (Datum.pair (.symbol "x") (.symbol "y")).toScheme := by
  rfl

/-- Two strings around a point: `(x "y" . "z")`. -/
def dottedStrings : Datum :=
  .pair (.symbol "x") (.pair (.str "y") (.str "z"))

/-- One string that reads like the two: `(x "y\" . \"z")`. -/
def stringWithPoint : Datum :=
  .ofList [.symbol "x", .str "y\" . \"z"]

/-- The quotes in the string are escaped, and that makes the difference. -/
theorem scheme_text_determines_datum_escaped :
    dottedStrings.toScheme ≠ stringWithPoint.toScheme := by
  have hx : SchemeText.ReadsAsSymbol "x" := by
    have hword : SchemeText.IsWord "x" :=
      ⟨by decide, by simp [SchemeText.Undelimited, SchemeText.isDelimiter], by decide⟩
    exact hword.readsAsSymbol (by decide) List.mem_cons_self (by decide)
  have hdotted : dottedStrings.Readable := by
    simpa [dottedStrings, Datum.Readable, Datum.AllAtoms, Datum.atoms, Datum.Named] using hx
  have hstring : stringWithPoint.Readable := by
    simpa [stringWithPoint, Datum.ofList, Datum.chain, Datum.Readable, Datum.AllAtoms, Datum.atoms,
      Datum.Named] using hx
  intro h
  have hlist : dottedStrings.isList = stringWithPoint.isList := by
    rw [(scheme_text_determines_datum hdotted hstring).1 h]
  cases hlist

end L32
