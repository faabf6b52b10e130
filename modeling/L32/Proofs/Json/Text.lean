import L32.Proofs.Json.Scalars

set_option autoImplicit false

/-! # JSON texts read back

Both texts of a value, `Json.compact` and `Json.pretty`, are read as that value, whatever it holds.

The two differ only in their blanks. `Layout.chars` is the text for any choice of blanks between the
parts, and the two texts are cases of it; reading is compared with it alone. The statement about one
value, `Layout.ReadsBack`, allows for any rest behind the text that does not continue a number. It
is proved by induction over the value, and for the items of an array and the fields of an object by
induction over the list, each round of which leaves the text after a comma or after the closing
bracket. -/

namespace L32

namespace Json

/-! ## Induction over values -/

/-- **Induction over values**: the items of an array and the contents of fields are reached through
membership. -/
@[elab_as_elim]
theorem induction {motive : Json → Prop} (null : motive .null) (bool : ∀ b, motive (.bool b))
    (number : ∀ n, motive (.number n)) (str : ∀ s, motive (.str s))
    (array : ∀ items, (∀ v ∈ items, motive v) → motive (.array items))
    (object : ∀ fields, (∀ f ∈ fields, motive f.2) → motive (.object fields)) (v : Json) :
    motive v := by
  induction hn : sizeOf v using Nat.strongRecOn generalizing v with
  | ind n ih =>
      subst hn
      cases v with
      | null => exact null
      | bool b => exact bool b
      | number n => exact number n
      | str s => exact str s
      | array items =>
          refine array items fun v hv => ih _ ?_ v rfl
          have := List.sizeOf_lt_of_mem hv
          simp only [Json.array.sizeOf_spec]
          omega
      | object fields =>
          refine object fields fun f hf => ih _ ?_ f.2 rfl
          have hlt := List.sizeOf_lt_of_mem hf
          have hsize : sizeOf f = 1 + sizeOf f.1 + sizeOf f.2 := rfl
          simp only [Json.object.sizeOf_spec]
          omega

/-! ## Blanks -/

/-- A character that may stand between the parts of a text. -/
def IsBlank (c : Char) : Prop :=
  c = ' ' ∨ c = '\t' ∨ c = '\n' ∨ c = '\r'

instance (c : Char) : Decidable (IsBlank c) :=
  inferInstanceAs (Decidable (_ ∨ _))

theorem skipBlanks_append {bs : List Char} (h : ∀ c ∈ bs, IsBlank c) (cs : List Char) :
    skipBlanks (bs ++ cs) = skipBlanks cs := by
  induction bs with
  | nil => rfl
  | cons b bs ih =>
      have hb : IsBlank b := h b (by simp)
      calc skipBlanks (b :: (bs ++ cs)) = skipBlanks (bs ++ cs) := if_pos hb
        _ = skipBlanks cs := ih fun c hc => h c (by simp [hc])

theorem skipBlanks_cons {c : Char} (h : ¬ IsBlank c) (cs : List Char) :
    skipBlanks (c :: cs) = c :: cs :=
  if_neg h

theorem after?_append {bs : List Char} (h : ∀ c ∈ bs, IsBlank c) (d : Char) (cs : List Char) :
    after? d (bs ++ cs) = after? d cs := by
  unfold after?
  rw [skipBlanks_append h]

theorem after?_cons {c : Char} (h : ¬ IsBlank c) (d : Char) (cs : List Char) :
    after? d (c :: cs) = if c = d then some cs else none := by
  unfold after?
  rw [skipBlanks_cons h]

theorem readValue?_append {bs : List Char} (h : ∀ c ∈ bs, IsBlank c) (n : Nat) (cs : List Char) :
    readValue? n (bs ++ cs) = readValue? n cs := by
  cases n with
  | zero => rfl
  | succ n => rw [readValue?.eq_2, readValue?.eq_2, skipBlanks_append h]

theorem ends_cons_of_isBlank {c : Char} (h : IsBlank c) (cs : List Char) : Ends (c :: cs) := by
  rintro _ ⟨⟩
  rcases h with rfl | rfl | rfl | rfl <;> decide

theorem ends_append {bs : List Char} (h : ∀ c ∈ bs, IsBlank c) {cs : List Char} (hcs : Ends cs) :
    Ends (bs ++ cs) := by
  cases bs with
  | nil => exact hcs
  | cons b bs => exact ends_cons_of_isBlank (h b (by simp)) _

/-! ## Texts with blanks -/

/-- The blanks between the parts of a text. -/
structure Layout where
  /-- In front of an item, a field or a closing bracket at a level of indentation. -/
  start : Nat → List Char
  /-- Behind the colon of a field. -/
  gap : List Char
  start_blank : ∀ level, ∀ c ∈ start level, IsBlank c
  gap_blank : ∀ c ∈ gap, IsBlank c

namespace Layout

mutual

/-- The text of a value with these blanks. -/
def chars (l : Layout) : Nat → Json → List Char
  | _, .null => ['n', 'u', 'l', 'l']
  | _, .bool b => (boolText b).toList
  | _, .number n => n.text.toList
  | _, .str s => (strText s).toList
  | _, .array [] => ['[', ']']
  | level, .array (v :: vs) =>
    '[' :: (l.start (level + 1) ++ (l.chars (level + 1) v ++ l.moreItems level vs))
  | _, .object [] => ['\x7b', '\x7d']
  | level, .object ((k, v) :: fs) =>
    '\x7b' :: (l.start (level + 1) ++ ((strText k).toList
      ++ ':' :: (l.gap ++ (l.chars (level + 1) v ++ l.moreFields level fs))))

/-- The text of an array after one of its items, with those that follow. -/
def moreItems (l : Layout) : Nat → List Json → List Char
  | level, [] => l.start level ++ [']']
  | level, v :: vs =>
    ',' :: (l.start (level + 1) ++ (l.chars (level + 1) v ++ l.moreItems level vs))

/-- The text of an object after one of its fields, with those that follow. -/
def moreFields (l : Layout) : Nat → List (Option String × Json) → List Char
  | level, [] => l.start level ++ ['\x7d']
  | level, (k, v) :: fs =>
    ',' :: (l.start (level + 1) ++ ((strText k).toList
      ++ ':' :: (l.gap ++ (l.chars (level + 1) v ++ l.moreFields level fs))))

end

variable (l : Layout)

/-! ## Reading a text with blanks -/

theorem ends_moreItems (level : Nat) (vs : List Json) (rest : List Char) :
    Ends (l.moreItems level vs ++ rest) := by
  cases vs with
  | nil =>
      rw [moreItems, List.append_assoc]
      refine ends_append (l.start_blank level) ?_
      rintro _ ⟨⟩
      decide
  | cons v vs =>
      rw [moreItems]
      rintro _ ⟨⟩
      decide

theorem ends_moreFields (level : Nat) (fs : List (Option String × Json)) (rest : List Char) :
    Ends (l.moreFields level fs ++ rest) := by
  cases fs with
  | nil =>
      rw [moreFields, List.append_assoc]
      refine ends_append (l.start_blank level) ?_
      rintro _ ⟨⟩
      decide
  | cons f fs =>
      rw [moreFields]
      rintro _ ⟨⟩
      decide

/-- The first character of a number is none of those with a meaning of their own. -/
theorem start_of_numeral {c : Char} (h : c = '-' ∨ ∃ d : Digit, c = d.toChar) :
    ¬ IsBlank c ∧ c ≠ '"' ∧ c ≠ '[' ∧ c ≠ '\x7b' ∧ c ≠ ']' ∧ 'n' ≠ c ∧ 't' ≠ c ∧ 'f' ≠ c := by
  rcases h with rfl | ⟨d, rfl⟩
  · decide
  · revert d
    decide

/-- The text of a value starts with a character that is no blank and no closing bracket. -/
theorem exists_chars_eq_cons (level : Nat) (v : Json) :
    ∃ c cs, l.chars level v = c :: cs ∧ ¬ IsBlank c ∧ c ≠ ']' := by
  cases v with
  | null => exact ⟨_, _, rfl, by decide, by decide⟩
  | bool b => cases b <;> exact ⟨_, _, rfl, by decide, by decide⟩
  | number n =>
      obtain ⟨c, cs, htext, hc⟩ := exists_toList_text_eq_cons n
      obtain ⟨hblank, _, _, _, hclose, _⟩ := start_of_numeral hc
      exact ⟨c, cs, htext, hblank, hclose⟩
  | str s =>
      obtain ⟨body, htext, _⟩ := exists_toList_strText_eq s
      exact ⟨_, _, htext, by decide, by decide⟩
  | array items => cases items <;> exact ⟨_, _, rfl, by decide, by decide⟩
  | object fields => cases fields <;> exact ⟨_, _, rfl, by decide, by decide⟩

/-- The text of the value, with a rest behind it, is read as the value, and the rest is left. -/
def ReadsBack (v : Json) : Prop :=
  ∀ (level n : Nat) (rest : List Char), Ends rest → 2 * (l.chars level v).length ≤ n →
    readValue? n (l.chars level v ++ rest) = some (v, rest)

variable {l}

/-- The items of an array, from one on to the closing bracket. -/
theorem readItems?_chars {v : Json} {vs : List Json} (hv : l.ReadsBack v)
    (hvs : ∀ w ∈ vs, l.ReadsBack w) (level : Nat) {n : Nat} (rest : List Char)
    (hn : 2 * (l.chars (level + 1) v ++ l.moreItems level vs).length ≤ n) :
    readItems? n (l.start (level + 1) ++ (l.chars (level + 1) v ++ (l.moreItems level vs ++ rest)))
      = some (v :: vs, rest) := by
  induction vs generalizing v n with
  | nil =>
      simp only [moreItems, List.length_append, List.length_singleton] at hn
      obtain ⟨m, rfl⟩ : ∃ m, n = m + 1 := ⟨n - 1, by omega⟩
      rw [readItems?, readValue?_append (l.start_blank _),
        hv (level + 1) m _ (l.ends_moreItems level [] rest) (by omega)]
      simp only [moreItems, Option.bind_eq_bind, Option.bind_some, List.append_assoc,
        List.singleton_append, after?_append (l.start_blank level)]
      rfl
  | cons w ws ih =>
      simp only [moreItems, List.length_append, List.length_cons] at hn
      obtain ⟨m, rfl⟩ : ∃ m, n = m + 1 := ⟨n - 1, by omega⟩
      rw [readItems?, readValue?_append (l.start_blank _),
        hv (level + 1) m _ (l.ends_moreItems level (w :: ws) rest) (by omega)]
      have hrest := @ih w (hvs w (by simp)) (fun u hu => hvs u (by simp [hu])) m (by
        simp only [List.length_append]
        omega)
      simp only [moreItems, Option.bind_eq_bind, Option.bind_some, List.append_assoc,
        List.cons_append, after?_cons (by decide : ¬ IsBlank ','), if_true, hrest]

/-- The fields of an object, from one on to the closing brace. -/
theorem readFields?_chars {k : Option String} {v : Json} {fs : List (Option String × Json)}
    (hv : l.ReadsBack v) (hfs : ∀ f ∈ fs, l.ReadsBack f.2) (level : Nat) {n : Nat}
    (rest : List Char) (hn : 2 * (l.chars (level + 1) v ++ l.moreFields level fs).length ≤ n) :
    readFields? n (l.start (level + 1) ++ ((strText k).toList
      ++ ':' :: (l.gap ++ (l.chars (level + 1) v ++ (l.moreFields level fs ++ rest)))))
      = some ((k, v) :: fs, rest) := by
  induction fs generalizing k v n with
  | nil =>
      simp only [moreFields, List.length_append, List.length_singleton] at hn
      obtain ⟨m, rfl⟩ : ∃ m, n = m + 1 := ⟨n - 1, by omega⟩
      obtain ⟨body, hbody, hread⟩ := exists_toList_strText_eq k
      have hvalue := hv (level + 1) m _ (l.ends_moreFields level [] rest) (by omega)
      rw [readFields?, after?_append (l.start_blank _), hbody, List.cons_append,
        after?_cons (by decide), if_pos rfl]
      simp only [Option.bind_eq_bind, Option.bind_some, hread,
        after?_cons (by decide : ¬ IsBlank ':'), if_true, readValue?_append l.gap_blank, hvalue]
      simp only [moreFields, List.append_assoc, List.singleton_append,
        after?_append (l.start_blank level)]
      rfl
  | cons f fs ih =>
      obtain ⟨k', w⟩ := f
      simp only [moreFields, List.length_append, List.length_cons] at hn
      obtain ⟨m, rfl⟩ : ∃ m, n = m + 1 := ⟨n - 1, by omega⟩
      obtain ⟨body, hbody, hread⟩ := exists_toList_strText_eq k
      have hvalue := hv (level + 1) m _ (l.ends_moreFields level ((k', w) :: fs) rest) (by omega)
      have hrest := @ih k' w (hfs (k', w) (by simp)) (fun f hf => hfs f (by simp [hf])) m (by
        simp only [List.length_append]
        omega)
      rw [readFields?, after?_append (l.start_blank _), hbody, List.cons_append,
        after?_cons (by decide), if_pos rfl]
      simp only [Option.bind_eq_bind, Option.bind_some, hread,
        after?_cons (by decide : ¬ IsBlank ':'), if_true, readValue?_append l.gap_blank, hvalue]
      simp only [moreFields, List.cons_append, List.append_assoc,
        after?_cons (by decide : ¬ IsBlank ','), if_true, Option.bind_some, hrest]

/-- **The text of every value is read as that value**, with any blanks between its parts. -/
theorem readsBack (v : Json) : l.ReadsBack v := by
  induction v using Json.induction with
  | null =>
      rintro level (_ | n) rest _ hn
      · simp [chars] at hn
      · rfl
  | bool b =>
      rintro level (_ | n) rest _ hn
      · cases b <;> simp [chars, boolText] at hn
      · cases b <;> rfl
  | number x =>
      intro level n rest hrest hn
      have hread := readNumeral?_text x hrest
      obtain ⟨c, cs, htext, hc⟩ := exists_toList_text_eq_cons x
      obtain ⟨hblank, hquote, hbracket, hbrace, _, hnull, htrue, hfalse⟩ := start_of_numeral hc
      rw [chars, htext] at hn ⊢
      rw [htext, List.cons_append] at hread
      obtain ⟨m, rfl⟩ : ∃ m, n = m + 1 := ⟨n - 1, by simp at hn; omega⟩
      rw [List.cons_append, readValue?, skipBlanks_cons hblank]
      simp only [if_neg hquote, if_neg hbracket, if_neg hbrace, readPlain?, afterWord?,
        if_neg hnull, if_neg htrue, if_neg hfalse, hread]
      rfl
  | str s =>
      intro level n rest _ hn
      obtain ⟨body, htext, hread⟩ := exists_toList_strText_eq s
      rw [chars, htext] at hn ⊢
      obtain ⟨m, rfl⟩ : ∃ m, n = m + 1 := ⟨n - 1, by simp at hn; omega⟩
      rw [List.cons_append, readValue?, skipBlanks_cons (by decide)]
      simp only [if_true, hread]
      rfl
  | array items ih =>
      intro level n rest _ hn
      cases items with
      | nil =>
          obtain ⟨m, rfl⟩ : ∃ m, n = m + 1 := ⟨n - 1, by simp [chars] at hn; omega⟩
          rfl
      | cons v vs =>
          rw [chars] at hn ⊢
          simp only [List.length_cons, List.length_append] at hn
          obtain ⟨m, rfl⟩ : ∃ m, n = m + 1 := ⟨n - 1, by omega⟩
          have hvs : ∀ w ∈ vs, l.ReadsBack w := fun w hw => ih w (by simp [hw])
          have hitems := readItems?_chars (n := m) (ih v (by simp)) hvs level rest
            (by simp only [List.length_append]; omega)
          -- the bracket does not close at once, since an item follows
          have hopen : after? ']' (l.start (level + 1)
              ++ (l.chars (level + 1) v ++ (l.moreItems level vs ++ rest))) = none := by
            obtain ⟨c, cs, hcs, hblank, hclose⟩ := l.exists_chars_eq_cons (level + 1) v
            rw [after?_append (l.start_blank _), hcs, List.cons_append, after?_cons hblank,
              if_neg hclose]
          simp only [List.cons_append, List.append_assoc]
          rw [readValue?, skipBlanks_cons (by decide)]
          simp only [Char.reduceEq, if_false, if_true, hopen, hitems]
          rfl
  | object fields ih =>
      intro level n rest _ hn
      cases fields with
      | nil =>
          obtain ⟨m, rfl⟩ : ∃ m, n = m + 1 := ⟨n - 1, by simp [chars] at hn; omega⟩
          rfl
      | cons f fs =>
          obtain ⟨k, v⟩ := f
          rw [chars] at hn ⊢
          simp only [List.length_cons, List.length_append] at hn
          obtain ⟨m, rfl⟩ : ∃ m, n = m + 1 := ⟨n - 1, by omega⟩
          have hv : l.ReadsBack v := ih (k, v) (by simp)
          have hfs : ∀ f ∈ fs, l.ReadsBack f.2 := fun f hf => ih f (by simp [hf])
          have hfields := readFields?_chars (k := k) (n := m) hv hfs level rest
            (by simp only [List.length_append]; omega)
          have hopen : after? '\x7d' (l.start (level + 1) ++ ((strText k).toList
              ++ ':' :: (l.gap ++ (l.chars (level + 1) v ++ (l.moreFields level fs ++ rest)))))
              = none := by
            obtain ⟨body, hbody, _⟩ := exists_toList_strText_eq k
            rw [after?_append (l.start_blank _), hbody, List.cons_append,
              after?_cons (by decide), if_neg (by decide)]
          simp only [List.cons_append, List.append_assoc]
          rw [readValue?, skipBlanks_cons (by decide)]
          simp only [Char.reduceEq, if_false, if_true, hopen, hfields]
          rfl

/-- A whole text may also have blanks behind it. -/
theorem read?_of_toList_eq {text : String} {level : Nat} {v : Json} {blanks : List Char}
    (htext : text.toList = l.chars level v ++ blanks) (hblanks : ∀ c ∈ blanks, IsBlank c) :
    Json.read? text = some v := by
  have hends : Ends blanks := by
    have := ends_append hblanks ends_nil
    rwa [List.append_nil] at this
  have hskip : skipBlanks blanks = [] := by
    have := skipBlanks_append hblanks []
    rwa [List.append_nil] at this
  have hread := readsBack (l := l) v level (2 * text.toList.length + 1) blanks hends (by
    rw [htext, List.length_append]
    omega)
  unfold Json.read? readChars?
  rw [htext] at hread ⊢
  simp only [hread, hskip, if_true]

end Layout

/-! ## The two texts -/

def compactLayout : Layout where
  start _ := []
  gap := []
  start_blank _ _ h := by cases h
  gap_blank _ h := by cases h

/-- A line for each item and field, indented by two blanks for each level. -/
def prettyLayout : Layout where
  start level := (lineStart level).toList
  gap := [' ']
  start_blank level c h := by
    simp only [lineStart, String.toList_append, String.toList_ofList, List.mem_append] at h
    rcases h with h | h
    · exact Or.inr (Or.inr (Or.inl (List.mem_singleton.1 h)))
    · exact Or.inl (List.eq_of_mem_replicate h)
  gap_blank c h := Or.inl (List.mem_singleton.1 h)

/-- Texts joined behind a first one, character by character. -/
theorem toList_joinWith_cons (separator t : String) (ts : List String) :
    (joinWith separator (t :: ts)).toList
      = t.toList ++ ts.flatMap fun u => separator.toList ++ u.toList := by
  induction ts generalizing t with
  | nil => simp [joinWith]
  | cons u ts ih => simp [joinWith, ih]

theorem compactItems_eq_map (vs : List Json) : compactItems vs = vs.map compact := by
  induction vs with
  | nil => rfl
  | cons v vs ih => simp [compactItems, ih]

theorem compactFields_eq_map (fs : List (Option String × Json)) :
    compactFields fs = fs.map fun f => strText f.1 ++ ":" ++ f.2.compact := by
  induction fs with
  | nil => rfl
  | cons f fs ih => simp [compactFields, ih]

theorem prettyItems_eq_map (level : Nat) (vs : List Json) :
    prettyItems level vs = vs.map (prettyAt level) := by
  induction vs with
  | nil => rfl
  | cons v vs ih => simp [prettyItems, ih]

theorem prettyFields_eq_map (level : Nat) (fs : List (Option String × Json)) :
    prettyFields level fs = fs.map fun f => strText f.1 ++ ": " ++ f.2.prettyAt level := by
  induction fs with
  | nil => rfl
  | cons f fs ih => simp [prettyFields, ih]

namespace Layout

variable {l : Layout}

/-- The items behind the first, from their texts. -/
theorem moreItems_eq_flatMap {level : Nat} {text : Json → String} {vs : List Json}
    (h : ∀ v ∈ vs, (text v).toList = l.chars (level + 1) v) :
    l.moreItems level vs
      = (vs.flatMap fun v => ',' :: (l.start (level + 1) ++ (text v).toList))
        ++ (l.start level ++ [']']) := by
  induction vs with
  | nil => simp [moreItems]
  | cons v vs ih =>
      rw [moreItems, ih fun w hw => h w (by simp [hw]), List.flatMap_cons, h v (by simp)]
      simp only [List.cons_append, List.append_assoc]

/-- The fields behind the first, from the texts of their contents. -/
theorem moreFields_eq_flatMap {level : Nat} {text : Json → String}
    {fs : List (Option String × Json)}
    (h : ∀ f ∈ fs, (text f.2).toList = l.chars (level + 1) f.2) :
    l.moreFields level fs
      = (fs.flatMap fun f => ',' :: (l.start (level + 1)
          ++ ((strText f.1).toList ++ ':' :: (l.gap ++ (text f.2).toList))))
        ++ (l.start level ++ ['\x7d']) := by
  induction fs with
  | nil => simp [moreFields]
  | cons f fs ih =>
      rw [moreFields, ih fun w hw => h w (by simp [hw]), List.flatMap_cons, h f (by simp)]
      simp only [List.cons_append, List.append_assoc]

end Layout

theorem toList_compact (v : Json) (level : Nat) :
    v.compact.toList = compactLayout.chars level v := by
  induction v using Json.induction generalizing level with
  | null | bool | number | str => rfl
  | array items ih =>
      cases items with
      | nil => rfl
      | cons v vs =>
          have hvs : ∀ w ∈ vs, w.compact.toList = compactLayout.chars (level + 1) w :=
            fun w hw => ih w (by simp [hw]) (level + 1)
          rw [compact, compactItems_eq_map, List.map_cons, Layout.chars,
            Layout.moreItems_eq_flatMap hvs, ← ih v (by simp) (level + 1)]
          simp [toList_joinWith_cons, compactLayout, List.flatMap_map]
  | object fields ih =>
      cases fields with
      | nil => rfl
      | cons f fs =>
          have hfs : ∀ g ∈ fs, g.2.compact.toList = compactLayout.chars (level + 1) g.2 :=
            fun g hg => ih g (by simp [hg]) (level + 1)
          rw [compact, compactFields_eq_map, List.map_cons, Layout.chars,
            Layout.moreFields_eq_flatMap hfs, ← ih f (by simp) (level + 1)]
          simp [toList_joinWith_cons, compactLayout, List.flatMap_map]

theorem toList_prettyAt (v : Json) (level : Nat) :
    (v.prettyAt level).toList = prettyLayout.chars level v := by
  induction v using Json.induction generalizing level with
  | null => simp [prettyAt, Layout.chars]
  | bool | number | str => rw [prettyAt, Layout.chars]
  | array items ih =>
      cases items with
      | nil => simp [prettyAt, Layout.chars, prettyItems, block]
      | cons v vs =>
          have hvs : ∀ w ∈ vs, (w.prettyAt (level + 1)).toList = prettyLayout.chars (level + 1) w :=
            fun w hw => ih w (by simp [hw]) (level + 1)
          rw [prettyAt, prettyItems_eq_map, List.map_cons, Layout.chars,
            Layout.moreItems_eq_flatMap hvs, ← ih v (by simp) (level + 1)]
          simp [block, toList_joinWith_cons, prettyLayout, List.flatMap_map]
  | object fields ih =>
      cases fields with
      | nil => simp [prettyAt, Layout.chars, prettyFields, block]
      | cons f fs =>
          have hfs : ∀ g ∈ fs, (g.2.prettyAt (level + 1)).toList
              = prettyLayout.chars (level + 1) g.2 :=
            fun g hg => ih g (by simp [hg]) (level + 1)
          rw [prettyAt, prettyFields_eq_map, List.map_cons, Layout.chars,
            Layout.moreFields_eq_flatMap hfs, ← ih f (by simp) (level + 1)]
          simp [block, toList_joinWith_cons, prettyLayout, List.flatMap_map]

/-- **The text without blanks is read as the value.** -/
theorem read?_compact (v : Json) : read? v.compact = some v := by
  have htext : v.compact.toList = compactLayout.chars 0 v ++ [] := by
    rw [toList_compact v 0, List.append_nil]
  exact Layout.read?_of_toList_eq htext (by simp)

/-- **The indented text is read as the value**, also with more blanks behind it. -/
theorem read?_pretty_append (v : Json) {blanks : String} (h : ∀ c ∈ blanks.toList, IsBlank c) :
    read? (v.pretty ++ blanks) = some v := by
  have htext : (v.pretty ++ blanks).toList = prettyLayout.chars 0 v ++ blanks.toList := by
    rw [String.toList_append, pretty, toList_prettyAt v 0]
  exact Layout.read?_of_toList_eq htext h

theorem read?_pretty (v : Json) : read? v.pretty = some v := by
  have hnone : ∀ c ∈ "".toList, IsBlank c := by simp
  have h := read?_pretty_append v hnone
  rwa [String.append_empty] at h

end Json

end L32
