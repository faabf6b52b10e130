import L32.JavaScript.Literal
import L32.Proofs.Json.Scalars

set_option autoImplicit false

/-! # JavaScript string literals

What stands between the quotes of a string literal is `Quotable`: the quotes and backslashes in it
belong to escapes, each a backslash and the character behind it. This is all that a scan for the end
of a literal depends on. Such a scan finds the closing quote and no other one, whatever follows
(`Quotable.cutString?_append`), and each quote inside is preceded by a backslash that is not itself
escaped, which is to say by an odd number of backslashes (`Quotable.odd_of_quote`).

The characters that are written are read back one at a time (`decode?_escape_append`). The main
statement about a literal as a whole is `string_literal_closed_and_lossless`. -/

namespace L32.JavaScript

/-! ## Scanning -/

/-- Text as it may stand between two quotes. -/
inductive Quotable : List Char → Prop
  | nil : Quotable []
  | char {c : Char} {cs : List Char} (hquote : c ≠ '"') (hslash : c ≠ '\\') (h : Quotable cs) :
      Quotable (c :: cs)
  | escape (c : Char) {cs : List Char} (h : Quotable cs) : Quotable ('\\' :: c :: cs)

/-- Cuts a text at the end of a string literal: what stands before the closing quote, and what
follows it. The text starts behind the opening quote. -/
def cutString? : List Char → Option (List Char × List Char)
  | [] => none
  | c :: cs =>
    if c = '"' then some ([], cs)
    else if c = '\\' then
      match cs with
      | [] => none
      | e :: cs => (cutString? cs).map (Prod.map (c :: e :: ·) id)
    else (cutString? cs).map (Prod.map (c :: ·) id)

def trailingSlashes (cs : List Char) : Nat :=
  (cs.reverse.takeWhile (· = '\\')).length

theorem trailingSlashes_le (cs : List Char) : trailingSlashes cs ≤ cs.length := by
  have h := (cs.reverse.takeWhile_prefix (· = '\\')).length_le
  rwa [List.length_reverse] at h

/-- A character in front counts only where it is a backslash in front of nothing but backslashes. -/
theorem trailingSlashes_cons (c : Char) (cs : List Char) :
    trailingSlashes (c :: cs)
      = if c = '\\' ∧ trailingSlashes cs = cs.length then cs.length + 1
        else trailingSlashes cs := by
  unfold trailingSlashes
  rw [List.reverse_cons, List.takeWhile_append, List.length_reverse]
  by_cases hall : (cs.reverse.takeWhile (· = '\\')).length = cs.length
  · by_cases hc : c = '\\'
    · simp [hall, hc]
    · simp [hall, hc]
  · simp [hall]

/-- A backslash and another character in front do not change whether the number is odd: where only
backslashes follow, they count for two or for none. -/
theorem trailingSlashes_escape_mod_two (c : Char) (cs : List Char) :
    trailingSlashes ('\\' :: c :: cs) % 2 = trailingSlashes cs % 2 := by
  have hle := trailingSlashes_le cs
  rw [trailingSlashes_cons, trailingSlashes_cons, List.length_cons]
  by_cases hc : c = '\\'
  · simp only [hc, true_and]
    split_ifs <;> omega
  · simp only [hc, false_and, if_false, true_and]
    split_ifs <;> omega

namespace Quotable

variable {body : List Char}

/-- **A scan stops at the closing quote**, whatever follows it. -/
theorem cutString?_append (h : Quotable body) (rest : List Char) :
    cutString? (body ++ '"' :: rest) = some (body, rest) := by
  induction h with
  | nil =>
      rw [List.nil_append, cutString?.eq_def]
      rfl
  | char hquote hslash _ ih =>
      rw [List.cons_append, cutString?.eq_def]
      simp [hquote, hslash, ih]
  | escape c _ ih =>
      rw [List.cons_append, List.cons_append, cutString?.eq_def]
      simp [ih]

/-- **Each quote inside belongs to an escape.** -/
theorem odd_of_quote (h : Quotable body) {front back : List Char}
    (hbody : body = front ++ '"' :: back) : trailingSlashes front % 2 = 1 := by
  induction h generalizing front with
  | nil => simp at hbody
  | @char c cs hquote hslash _ ih =>
      cases front with
      | nil => exact absurd (List.cons.inj hbody).1 hquote
      | cons f front =>
          obtain ⟨rfl, hcs⟩ := List.cons.inj hbody
          rw [trailingSlashes_cons, if_neg fun h => hslash h.1]
          exact ih hcs
  | escape c _ ih =>
      match front with
      | [] => exact absurd (List.cons.inj hbody).1 (by decide)
      | [f] =>
          obtain ⟨rfl, _⟩ := List.cons.inj hbody
          rfl
      | f :: e :: front =>
          simp only [List.cons_append, List.cons.injEq] at hbody
          obtain ⟨rfl, rfl, hcs⟩ := hbody
          rw [trailingSlashes_escape_mod_two]
          exact ih hcs

end Quotable

/-! ## Reading -/

/-- The text between two quotes, read by the rules of JavaScript: a backslash and a letter, a
backslash with `u` and the four digits of a code, and every other character as itself. A quote has
to be escaped, and the code has to be that of a character. -/
def decode? : List Char → Option (List Char)
  | [] => some []
  | c :: cs =>
    if c = '\\' then
      match cs with
      | 'u' :: h₁ :: h₂ :: h₃ :: h₄ :: cs => do
        let n ← Json.hexCode? h₁ h₂ h₃ h₄
        if n.isValidChar then (decode? cs).map (Char.ofNat n :: ·) else none
      | e :: cs => do
        let d ← Json.shortEscape? e
        (decode? cs).map (d :: ·)
      | [] => none
    else if c = '"' then none
    else (decode? cs).map (c :: ·)

theorem decode?_letter {e c : Char} (hu : e ≠ 'u') (he : Json.shortEscape? e = some c)
    (cs : List Char) : decode? ('\\' :: e :: cs) = (decode? cs).map (c :: ·) := by
  rw [decode?.eq_def]
  simp [hu, he]

theorem decode?_codeEscape {c : Char} (h : c.toNat < 0xD800) (cs : List Char) :
    decode? (codeEscape c ++ cs) = (decode? cs).map (c :: ·) := by
  have hvalid : c.toNat.isValidChar := Or.inl h
  have hcode := Json.hexCode?_codeEscape (n := c.toNat) (by omega)
  rw [decode?.eq_def]
  simp [codeEscape, hcode, hvalid]

theorem decode?_self {c : Char} (hslash : c ≠ '\\') (hquote : c ≠ '"') (cs : List Char) :
    decode? (c :: cs) = (decode? cs).map (c :: ·) := by
  rw [decode?.eq_def]
  simp [hslash, hquote]

/-! ## What is written for a character -/

/-- The control characters stand below the halves of surrogate pairs. -/
theorem toNat_lt_of_isControl {c : Char} (h : isControl c = true) : c.toNat < 0xA0 := by
  simp only [isControl, Bool.or_eq_true, Bool.and_eq_true, decide_eq_true_eq] at h
  omega

theorem quotable_hexDigits (m n k l : Nat) {cs : List Char} (h : Quotable cs) :
    Quotable (hexDigit (m % 16) :: hexDigit (n % 16) :: hexDigit (k % 16) :: hexDigit (l % 16)
      :: cs) := by
  have hdigit : ∀ n : Fin 16, hexDigit n ≠ '"' ∧ hexDigit n ≠ '\\' := by decide
  have hhex : ∀ n cs, Quotable cs → Quotable (hexDigit (n % 16) :: cs) := by
    intro n cs hcs
    obtain ⟨hquote, hslash⟩ := hdigit ⟨n % 16, Nat.mod_lt n (by decide)⟩
    exact .char hquote hslash hcs
  exact hhex m _ (hhex n _ (hhex k _ (hhex l _ h)))

theorem quotable_escape_append (c : Char) {cs : List Char} (h : Quotable cs) :
    Quotable (escape c ++ cs) := by
  unfold escape
  split
  iterate 7
    exact .escape _ h
  rename_i hslash hquote _ _ _ _ _
  split
  · exact .escape 'u' (quotable_hexDigits _ _ _ _ h)
  · exact .char hquote hslash h

theorem quotable_flatMap_escape (cs : List Char) : Quotable (cs.flatMap escape) := by
  induction cs with
  | nil => exact .nil
  | cons c cs ih =>
      rw [List.flatMap_cons]
      exact quotable_escape_append c ih

/-- **What is written for a character is read as that character.** -/
theorem decode?_escape_append (c : Char) (cs : List Char) :
    decode? (escape c ++ cs) = (decode? cs).map (c :: ·) := by
  unfold escape
  split
  iterate 7
    exact decode?_letter (by decide) rfl cs
  rename_i hslash hquote _ _ _ _ _
  split
  · rename_i hcontrol
    have hlow := toNat_lt_of_isControl hcontrol
    exact decode?_codeEscape (by omega) cs
  · exact decode?_self hslash hquote cs

theorem decode?_flatMap_escape (cs : List Char) : decode? (cs.flatMap escape) = some cs := by
  induction cs with
  | nil => rfl
  | cons c cs ih => rw [List.flatMap_cons, decode?_escape_append, ih, Option.map_some]

theorem isControl_of_mem_codeEscape {c d : Char} (h : d ∈ codeEscape c) : isControl d = false := by
  have hdigit : ∀ n : Fin 16, isControl (hexDigit n) = false := by decide
  have hhex : ∀ n, isControl (hexDigit (n % 16)) = false :=
    fun n => hdigit ⟨n % 16, Nat.mod_lt n (by decide)⟩
  simp only [codeEscape, List.mem_cons, List.not_mem_nil, or_false] at h
  rcases h with rfl | rfl | rfl | rfl | rfl | rfl
  · decide
  · decide
  · exact hhex _
  · exact hhex _
  · exact hhex _
  · exact hhex _

/-- No control character is written as itself. -/
theorem isControl_of_mem_escape {c d : Char} (h : d ∈ escape c) : isControl d = false := by
  unfold escape at h
  split at h
  iterate 7
    simp only [List.mem_cons, List.not_mem_nil, or_false] at h
    rcases h with rfl | rfl <;> decide
  split at h
  · exact isControl_of_mem_codeEscape h
  · rename_i hcontrol
    rw [List.mem_singleton.1 h]
    simpa using hcontrol

/-! ## The main statement -/

theorem toList_stringText (s : String) :
    (stringText s).toList = '"' :: (s.toList.flatMap escape ++ ['"']) := by
  simp [stringText, escapeWith]

/-- **A string literal is closed, and nothing of the string is lost.** The literal is a text between
two quotes. Every other quote in it stands behind an odd number of backslashes, so behind one that
escapes it, and there is no control character in it. What stands between the two quotes is read as
the string, and a scan that starts behind the first quote stops at the last one, whatever
follows. -/
theorem string_literal_closed_and_lossless (s : String) :
    ∃ body, (stringText s).toList = '"' :: (body ++ ['"'])
      ∧ (∀ front back, body = front ++ '"' :: back → trailingSlashes front % 2 = 1)
      ∧ (∀ c ∈ (stringText s).toList,
          ¬ c.toNat ≤ 0x1F ∧ ¬ (0x7F ≤ c.toNat ∧ c.toNat ≤ 0x9F))
      ∧ decode? body = some s.toList
      ∧ ∀ rest, cutString? (body ++ '"' :: rest) = some (body, rest) := by
  have hbody := quotable_flatMap_escape s.toList
  refine ⟨s.toList.flatMap escape, toList_stringText s, ?_, ?_, decode?_flatMap_escape _,
    hbody.cutString?_append⟩
  · intro front back h
    exact hbody.odd_of_quote h
  · intro c hc
    have hcontrol : isControl c = false := by
      rw [toList_stringText, List.mem_cons, List.mem_append, List.mem_singleton] at hc
      rcases hc with rfl | hc | rfl
      · decide
      · obtain ⟨d, _, hd⟩ := List.mem_flatMap.1 hc
        exact isControl_of_mem_escape hd
      · decide
    simp only [isControl, Bool.or_eq_false_iff, Bool.and_eq_false_iff,
      decide_eq_false_iff_not] at hcontrol
    omega

/-- A quote and a backslash next to each other, hexadecimal digits behind a control character, and a
character beyond sixteen bits. -/
example : stringText "\\\"\x01ab😀" = "\"\\\\\\\"\\u0001ab😀\"" := by decide

end L32.JavaScript
