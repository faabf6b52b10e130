import L32.Json.Reader
import L32.Proofs.Number.Digits

set_option autoImplicit false

/-! # Numbers and strings read back

The text of a number or a string, with anything behind it, is read as that number or string, and the
rest is left. A number has no end of its own: it ends where the text goes on with a character that
cannot belong to it (`Ends`). A string is read character by character: what is written for one
character is one piece, and that piece spells the character again (`Spelled`). -/

namespace L32

/-! ## Digits -/

/-- A number is not written with a zero in front. -/
theorem digitsOf_ne_zero_cons (n : Nat) (d : Digit) (ds : List Digit) :
    digitsOf n ≠ 0 :: d :: ds := by
  induction n using Nat.strongRecOn generalizing d ds with
  | ind n ih =>
      rw [digitsOf]
      split
      · simp
      · rename_i hn
        intro h
        -- the zero is already in front of the number without its last digit
        cases hfront : digitsOf (n / 10) with
        | nil => exact digitsOf_ne_nil _ hfront
        | cons a as =>
            rw [hfront, List.cons_append, List.cons.injEq] at h
            obtain ⟨rfl, _⟩ := h
            cases as with
            | nil =>
                have hzero := ofDigits_digitsOf (n / 10)
                rw [hfront] at hzero
                have : ofDigits [0] = 0 := rfl
                omega
            | cons b bs => exact ih (n / 10) (by omega) b bs hfront

namespace Json

def StartsWithoutDigit (cs : List Char) : Prop :=
  ∀ c ∈ cs.head?, Digit.ofChar? c = none

/-- The text cannot continue a number that stands in front of it. -/
def Ends (cs : List Char) : Prop :=
  ∀ c ∈ cs.head?, Digit.ofChar? c = none ∧ c ≠ '.' ∧ c ≠ 'e' ∧ c ≠ 'E'

theorem Ends.startsWithoutDigit {cs : List Char} (h : Ends cs) : StartsWithoutDigit cs :=
  fun c hc => (h c hc).1

theorem ends_nil : Ends [] := by
  intro c hc
  cases hc

theorem startsWithoutDigit_cons {c : Char} (h : Digit.ofChar? c = none) (cs : List Char) :
    StartsWithoutDigit (c :: cs) := by
  rintro _ ⟨⟩
  exact h

theorem takeDigits_append (ds : List Digit) {rest : List Char} (h : StartsWithoutDigit rest) :
    takeDigits (ds.map Digit.toChar ++ rest) = (ds, rest) := by
  induction ds with
  | nil =>
      cases rest with
      | nil => rfl
      | cons c cs => simp [takeDigits, h c rfl]
  | cons d ds ih => simp [takeDigits, Digit.ofChar?_toChar, ih]

theorem readDigits?_append {ds : List Digit} (hds : ds ≠ []) {rest : List Char}
    (h : StartsWithoutDigit rest) :
    readDigits? (ds.map Digit.toChar ++ rest) = some (ds, rest) := by
  unfold readDigits?
  rw [takeDigits_append ds h]
  cases ds with
  | nil => exact absurd rfl hds
  | cons d ds => rfl

/-! ## Numbers -/

theorem toList_natText (n : Nat) : (natText n).toList = (digitsOf n).map Digit.toChar :=
  String.toList_ofList

theorem readWhole?_append (n : Nat) {rest : List Char} (h : StartsWithoutDigit rest) :
    readWhole? ((digitsOf n).map Digit.toChar ++ rest) = some (n, rest) := by
  unfold readWhole?
  rw [readDigits?_append (digitsOf_ne_nil n) h]
  simp only [Option.bind_eq_bind, Option.bind_some]
  split
  · rename_i hzero
    exact absurd hzero (digitsOf_ne_zero_cons n _ _)
  · rw [ofDigits_digitsOf]

/-- The point and what is behind it; nothing without a fraction. -/
def fractionChars : List Digit → List Char
  | [] => []
  | d :: ds => '.' :: (d :: ds).map Digit.toChar

theorem readFraction?_append (ds : List Digit) {rest : List Char} (h : StartsWithoutDigit rest)
    (hpoint : ∀ c ∈ rest.head?, c ≠ '.') :
    readFraction? (fractionChars ds ++ rest) = some (ds, rest) := by
  cases ds with
  | nil =>
      cases rest with
      | nil => rfl
      | cons c cs => simp [fractionChars, readFraction?, afterWord?, (hpoint c rfl).symm]
  | cons d ds =>
      show readDigits? ((d :: ds).map Digit.toChar ++ rest) = _
      exact readDigits?_append (List.cons_ne_nil d ds) h

/-- The exponent with its letter and its sign; nothing if it is zero. -/
def exponentChars (x : Int) : List Char :=
  if x = 0 then []
  else 'e' :: (if x < 0 then '-' else '+') :: (digitsOf x.natAbs).map Digit.toChar

theorem readExponent?_append (x : Int) {rest : List Char} (h : Ends rest) :
    readExponent? (exponentChars x ++ rest) = some (x, rest) := by
  unfold exponentChars
  split
  · rename_i hx
    subst hx
    cases rest with
    | nil => rfl
    | cons c cs =>
        obtain ⟨_, _, he, hE⟩ := h c rfl
        simp [readExponent?, afterWord?, he.symm, hE.symm]
  · have hdigits := readDigits?_append (digitsOf_ne_nil x.natAbs) h.startsWithoutDigit
    split
    · simp only [readExponent?, afterWord?, takeSign, hdigits, ofDigits_digitsOf, List.cons_append,
        if_true, Option.some_or, Option.bind_eq_bind, Option.bind_some]
      congr 2
      omega
    · simp only [readExponent?, afterWord?, takeSign, hdigits, ofDigits_digitsOf, List.cons_append,
        if_true, Option.some_or, Option.bind_eq_bind, Option.bind_some, Char.reduceEq, if_false]
      congr 2
      simp only [Bool.false_eq_true, if_false]
      omega

/-- The text of a number without its sign, part by part. -/
def unsignedChars (n : Numeral) : List Char :=
  (digitsOf n.whole).map Digit.toChar ++ (fractionChars n.fraction ++ exponentChars n.exponent)

theorem toList_pointed (front back : List Digit) :
    (Decimal.pointed front back).toList = front.map Digit.toChar ++ fractionChars back := by
  cases back with
  | nil => simp [Decimal.pointed, digitText, fractionChars]
  | cons d ds => simp [Decimal.pointed, digitText, fractionChars]

theorem toList_text (n : Numeral) :
    n.text.toList = (if n.negative then ['-'] else []) ++ unsignedChars n := by
  have hexponent : (if n.exponent = 0 then ""
      else "e" ++ (if n.exponent < 0 then "-" else "+") ++ natText n.exponent.natAbs).toList
      = exponentChars n.exponent := by
    unfold exponentChars
    split
    · rfl
    · split <;> simp [toList_natText]
  unfold Numeral.text unsignedChars
  rw [String.toList_append, String.toList_append, toList_pointed, hexponent, List.append_assoc,
    List.append_assoc]
  cases n.negative <;> rfl

theorem startsWithoutDigit_exponentChars (x : Int) {rest : List Char} (h : Ends rest) :
    StartsWithoutDigit (exponentChars x ++ rest)
      ∧ ∀ c ∈ (exponentChars x ++ rest).head?, c ≠ '.' := by
  unfold exponentChars
  split
  · exact ⟨h.startsWithoutDigit, fun c hc => (h c hc).2.1⟩
  · refine ⟨startsWithoutDigit_cons (by decide) _, ?_⟩
    rintro _ ⟨⟩
    decide

theorem startsWithoutDigit_fractionChars (ds : List Digit) {rest : List Char}
    (h : StartsWithoutDigit rest) : StartsWithoutDigit (fractionChars ds ++ rest) := by
  cases ds with
  | nil => exact h
  | cons d ds => exact startsWithoutDigit_cons (by decide) _

theorem readUnsigned?_append (n : Numeral) {rest : List Char} (h : Ends rest) :
    readUnsigned? n.negative (unsignedChars n ++ rest) = some (n, rest) := by
  obtain ⟨hdigit, hpoint⟩ := startsWithoutDigit_exponentChars n.exponent h
  unfold readUnsigned? unsignedChars
  rw [List.append_assoc, List.append_assoc,
    readWhole?_append n.whole (startsWithoutDigit_fractionChars n.fraction hdigit)]
  simp only [Option.bind_eq_bind, Option.bind_some,
    readFraction?_append n.fraction hdigit hpoint, readExponent?_append n.exponent h]

/-- The text of a number starts with a minus or a digit. -/
theorem exists_toList_text_eq_cons (n : Numeral) :
    ∃ c cs, n.text.toList = c :: cs ∧ (c = '-' ∨ ∃ d : Digit, c = d.toChar) := by
  rw [toList_text]
  cases n.negative with
  | true => exact ⟨_, _, rfl, Or.inl rfl⟩
  | false =>
      unfold unsignedChars
      cases hdigits : digitsOf n.whole with
      | nil => exact absurd hdigits (digitsOf_ne_nil _)
      | cons d ds => exact ⟨_, _, rfl, Or.inr ⟨d, rfl⟩⟩

/-- **The text of a number is read as that number.** -/
theorem readNumeral?_text (n : Numeral) {rest : List Char} (h : Ends rest) :
    readNumeral? (n.text.toList ++ rest) = some (n, rest) := by
  have hread := readUnsigned?_append n h
  rw [toList_text]
  unfold readNumeral?
  cases hneg : n.negative with
  | true =>
      rw [hneg] at hread
      exact hread
  | false =>
      rw [hneg] at hread
      -- without a sign the text starts with a digit, which is no minus
      have hminus : afterWord? ['-'] (unsignedChars n ++ rest) = none := by
        unfold unsignedChars
        cases hdigits : digitsOf n.whole with
        | nil => exact absurd hdigits (digitsOf_ne_nil _)
        | cons d ds =>
            have hd : ∀ d : Digit, '-' ≠ d.toChar := by decide
            simp [afterWord?, hd d]
      simp only [Bool.false_eq_true, if_false, List.nil_append, hminus]
      exact hread

/-! ## Strings -/

theorem hexValue?_hexDigit {n : Nat} (h : n < 16) : hexValue? (hexDigit n) = some n := by
  have hall : ∀ k : Fin 16, hexValue? (hexDigit k) = some k.val := by decide
  exact hall ⟨n, h⟩

/-- The four digits of a code spell it. -/
theorem hexCode?_codeEscape {n : Nat} (h : n < 65536) :
    hexCode? (hexDigit (n / 4096 % 16)) (hexDigit (n / 256 % 16)) (hexDigit (n / 16 % 16))
      (hexDigit (n % 16)) = some n := by
  have hlt : ∀ m : Nat, m % 16 < 16 := fun m => Nat.mod_lt m (by decide)
  simp only [hexCode?, hexValue?_hexDigit (hlt _), Option.bind_eq_bind, Option.bind_some,
    Option.some.injEq]
  omega

theorem readPieces?_quote (cs : List Char) : readPieces? ('"' :: cs) = some ([], cs) := by
  rw [readPieces?.eq_def]
  rfl

theorem readPieces?_short {e c : Char} (hu : e ≠ 'u') (he : shortEscape? e = some c)
    (cs : List Char) :
    readPieces? ('\\' :: e :: cs) = (readPieces? cs).map (Prod.map (.char c :: ·) id) := by
  rw [readPieces?.eq_def]
  simp only [Char.reduceEq, if_false, if_true, if_neg hu, he, Option.bind_eq_bind, Option.bind_some]
  cases readPieces? cs <;> rfl

theorem readPieces?_code {h₁ h₂ h₃ h₄ : Char} {n : Nat} (h : hexCode? h₁ h₂ h₃ h₄ = some n)
    (cs : List Char) :
    readPieces? ('\\' :: 'u' :: h₁ :: h₂ :: h₃ :: h₄ :: cs)
      = (readPieces? cs).map (Prod.map (.code n :: ·) id) := by
  rw [readPieces?.eq_def]
  simp only [Char.reduceEq, if_false, if_true, h, Option.bind_eq_bind, Option.bind_some]
  cases readPieces? cs <;> rfl

theorem readPieces?_char {c : Char} (hquote : c ≠ '"') (hslash : c ≠ '\\') (hc : ¬ c.toNat < 32)
    (cs : List Char) :
    readPieces? (c :: cs) = (readPieces? cs).map (Prod.map (.char c :: ·) id) := by
  rw [readPieces?.eq_def]
  simp only [if_neg hquote, if_neg hslash, if_neg hc]
  cases readPieces? cs <;> rfl

/-- What is written is one piece, and the piece spells the character. -/
def Spelled (written : List Char) (c : Char) : Prop :=
  ∃ p, (∀ cs, readPieces? (written ++ cs) = (readPieces? cs).map (Prod.map (p :: ·) id))
    ∧ ∀ ps, spell? (p :: ps) = (spell? ps).map (c :: ·)

theorem spelled_short {e c : Char} (hu : e ≠ 'u') (he : shortEscape? e = some c) :
    Spelled ['\\', e] c :=
  ⟨.char c, fun cs => readPieces?_short hu he cs, fun ps => spell?.eq_2 c ps⟩

theorem spelled_self {c : Char} (hquote : c ≠ '"') (hslash : c ≠ '\\') (hc : ¬ c.toNat < 32) :
    Spelled [c] c :=
  ⟨.char c, fun cs => readPieces?_char hquote hslash hc cs, fun ps => spell?.eq_2 c ps⟩

/-- A code that is no half of a pair spells its character. -/
theorem spelled_codeEscape {c : Char} (h : c.toNat < 0xD800) : Spelled (codeEscape c) c := by
  have hhigh : isHighHalf c.toNat = false := by
    simp only [isHighHalf, Bool.and_eq_false_iff, decide_eq_false_iff_not]
    omega
  have hlow : isLowHalf c.toNat = false := by
    simp only [isLowHalf, Bool.and_eq_false_iff, decide_eq_false_iff_not]
    omega
  refine ⟨.code c.toNat, fun cs => readPieces?_code (hexCode?_codeEscape (by omega)) cs, ?_⟩
  intro ps
  rw [spell?.eq_def]
  simp only [hhigh, hlow, Bool.false_eq_true, if_false, Char.ofNat_toNat]

/-- **What is written for a character is one piece.** -/
theorem spelled_escape (c : Char) : Spelled (escape c) c := by
  unfold escape
  split
  -- the seven characters with a letter of their own
  iterate 7
    exact spelled_short (by decide) rfl
  -- and all others, by their code or as they are
  rename_i hslash hquote _ _ _ _ _
  split
  · rename_i hlow
    exact spelled_codeEscape (by omega)
  · rename_i hlow
    exact spelled_self hquote hslash hlow

/-- Whatever the table of escapes, if it spells the characters one by one, it spells the text. -/
theorem exists_readPieces?_eq {table : Char → List Char} (h : ∀ c, Spelled (table c) c)
    (text rest : List Char) :
    ∃ ps, readPieces? (text.flatMap table ++ '"' :: rest) = some (ps, rest)
      ∧ spell? ps = some text := by
  induction text with
  | nil => exact ⟨[], readPieces?_quote rest, rfl⟩
  | cons c text ih =>
      obtain ⟨ps, hread, hspell⟩ := ih
      obtain ⟨p, hp, hc⟩ := h c
      refine ⟨p :: ps, ?_, ?_⟩
      · rw [List.flatMap_cons, List.append_assoc, hp, hread]
        rfl
      · rw [hc, hspell]
        rfl

theorem readString?_flatMap {table : Char → List Char} (h : ∀ c, Spelled (table c) c)
    (text rest : List Char) :
    readString? (text.flatMap table ++ '"' :: rest) = some (some (String.ofList text), rest) := by
  obtain ⟨ps, hread, hspell⟩ := exists_readPieces?_eq h text rest
  rw [readString?, hread]
  simp only [Option.bind_eq_bind, Option.bind_some, hspell, Option.map_some]

/-- **The text of a string is read as that string**, with a content or without one. -/
theorem exists_toList_strText_eq (s : Option String) :
    ∃ body, (strText s).toList = '"' :: body
      ∧ ∀ rest, readString? (body ++ rest) = some (s, rest) := by
  cases s with
  | none =>
      -- half of a pair, and no other half behind it
      refine ⟨['\\', 'u', 'd', '8', '0', '0', '"'], rfl, fun rest => ?_⟩
      have hcode : hexCode? 'd' '8' '0' '0' = some 0xD800 := by decide
      have hread : readPieces? ('\\' :: 'u' :: 'd' :: '8' :: '0' :: '0' :: '"' :: rest)
          = some ([.code 0xD800], rest) := by
        rw [readPieces?_code hcode, readPieces?_quote]
        rfl
      simp only [readString?, List.cons_append, List.nil_append, hread]
      rfl
  | some s =>
      refine ⟨s.toList.flatMap escape ++ ['"'], ?_, fun rest => ?_⟩
      · simp [strText, escapeWith]
      · rw [List.append_assoc, List.singleton_append, readString?_flatMap spelled_escape,
          String.ofList_toList]

end Json

end L32
