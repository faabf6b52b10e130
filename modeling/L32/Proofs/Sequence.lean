import Mathlib.Data.List.Forall2

set_option autoImplicit false

/-! # Results in sequence

Computations that may fail, one after the other. `bind_eq_ok` and `bind_eq_error` say when two of
them succeed or fail, so that a `do` block is taken apart from the front. `InOrder f F` says that
`F` is `f` on each member of a list in order, up to the first error: it is the shape of the
functions over lists of expressions, bindings, entries and forms, and what follows from it is
proved here once.

`error?` is the error that a computation ends with. In a sequence it is the first one, and so
`error?` of a sequence is `Option.or` or `List.findSome?` of the errors of its members. -/

namespace L32

section Sequence

variable {ε α β : Type}

/-! ## Two computations -/

theorem bind_eq_ok {x : Except ε α} {f : α → Except ε β} {b : β} :
    (x >>= f) = .ok b ↔ ∃ a, x = .ok a ∧ f a = .ok b := by
  constructor
  · intro h
    cases x with
    | error e => cases h
    | ok a => exact ⟨a, rfl, h⟩
  · rintro ⟨a, rfl, h⟩
    exact h

theorem bind_eq_error {x : Except ε α} {f : α → Except ε β} {e : ε} :
    (x >>= f) = .error e ↔ x = .error e ∨ ∃ a, x = .ok a ∧ f a = .error e := by
  constructor
  · intro h
    cases x with
    | error e' =>
        cases h
        exact Or.inl rfl
    | ok a => exact Or.inr ⟨a, rfl, h⟩
  · rintro (rfl | ⟨a, rfl, h⟩)
    · rfl
    · exact h

theorem map_eq_ok {x : Except ε α} {f : α → β} {b : β} :
    x.map f = .ok b ↔ ∃ a, x = .ok a ∧ f a = b := by
  cases x with
  | error e => simp only [Except.map, reduceCtorEq, false_and, exists_false]
  | ok a => simp only [Except.map, Except.ok.injEq, exists_eq_left']

theorem mapError_eq_ok {ε' : Type} {x : Except ε α} {f : ε → ε'} {a : α} :
    x.mapError f = .ok a ↔ x = .ok a := by
  cases x with
  | error e => simp only [Except.mapError, reduceCtorEq]
  | ok b => simp only [Except.mapError, Except.ok.injEq]

theorem map_eq_error {x : Except ε α} {f : α → β} {e : ε} :
    x.map f = .error e ↔ x = .error e := by
  cases x with
  | error e' => simp only [Except.map, Except.error.injEq]
  | ok a => simp only [Except.map, reduceCtorEq]

/-- The error of a computation that fails. -/
def error? : Except ε α → Option ε
  | .ok _ => none
  | .error e => some e

theorem error?_eq_some_iff {x : Except ε α} {e : ε} : error? x = some e ↔ x = .error e := by
  cases x with
  | ok a => simp only [error?, reduceCtorEq]
  | error e' => simp only [error?, Option.some.injEq, Except.error.injEq]

theorem error?_eq_none_iff {x : Except ε α} : error? x = none ↔ ∃ a, x = .ok a := by
  cases x with
  | ok a => simp only [error?, Except.ok.injEq, exists_eq']
  | error e => simp only [error?, reduceCtorEq, exists_false]

/-- The first of two computations reports its error before the second one. -/
theorem error?_bind {x : Except ε α} {f : α → Except ε β} {o : Option ε}
    (hf : ∀ a, x = .ok a → error? (f a) = o) : error? (x >>= f) = (error? x).or o := by
  cases x with
  | ok a => exact hf a rfl
  | error e => rfl

/-- A last step that cannot fail reports nothing. -/
theorem error?_bind_ok (x : Except ε α) (g : α → β) :
    error? (x >>= fun a => .ok (g a)) = error? x := by
  cases x <;> rfl

/-! ## A list of computations -/

theorem findSome?_cons_eq_or (f : α → Option β) (a : α) (as : List α) :
    (a :: as).findSome? f = (f a).or (as.findSome? f) := by
  rw [List.findSome?_cons]
  cases f a <;> rfl

theorem findSome?_congr_of_mem {f g : α → Option β} {as : List α} (h : ∀ a ∈ as, f a = g a) :
    as.findSome? f = as.findSome? g := by
  induction as with
  | nil => rfl
  | cons a as ih =>
      rw [List.forall_mem_cons] at h
      rw [findSome?_cons_eq_or, findSome?_cons_eq_or, h.1, ih h.2]

/-- `F` applies `f` to the members of a list in order and stops at the first error. -/
structure InOrder (f : α → Except ε β) (F : List α → Except ε (List β)) : Prop where
  nil : F [] = .ok []
  cons : ∀ a as, F (a :: as) = (do
    let b ← f a
    let bs ← F as
    .ok (b :: bs))

namespace InOrder

variable {f : α → Except ε β} {F : List α → Except ε (List β)}

theorem eq_ok_iff (h : InOrder f F) {as : List α} {bs : List β} :
    F as = .ok bs ↔ List.Forall₂ (fun a b => f a = .ok b) as bs := by
  induction as generalizing bs with
  | nil => rw [h.nil, List.forall₂_nil_left_iff, Except.ok.injEq, eq_comm]
  | cons a as ih =>
      simp only [h.cons, bind_eq_ok, List.forall₂_cons_left_iff, ih, Except.ok.injEq]
      constructor
      · rintro ⟨b, hb, bs', hbs', rfl⟩
        exact ⟨b, bs', hb, hbs', rfl⟩
      · rintro ⟨b, bs', hb, hbs', rfl⟩
        exact ⟨b, hb, bs', hbs', rfl⟩

/-- All succeed exactly when each does. -/
theorem exists_ok_iff (h : InOrder f F) {as : List α} :
    (∃ bs, F as = .ok bs) ↔ ∀ a ∈ as, ∃ b, f a = .ok b := by
  induction as with
  | nil => simp [h.nil]
  | cons a as ih =>
      rw [List.forall_mem_cons, ← ih]
      simp only [h.cons, bind_eq_ok]
      constructor
      · rintro ⟨_, b, hb, bs, hbs, _⟩
        exact ⟨⟨b, hb⟩, bs, hbs⟩
      · rintro ⟨⟨b, hb⟩, bs, hbs⟩
        exact ⟨_, b, hb, bs, hbs, rfl⟩

/-- An error is that of a member. -/
theorem exists_of_eq_error (h : InOrder f F) {as : List α} {e : ε} (he : F as = .error e) :
    ∃ a ∈ as, f a = .error e := by
  induction as with
  | nil =>
      rw [h.nil] at he
      cases he
  | cons a as ih =>
      simp only [h.cons, bind_eq_error] at he
      rcases he with ha | ⟨b, _, has | ⟨_, _, hok⟩⟩
      · exact ⟨a, by simp, ha⟩
      · obtain ⟨a', ha', hae⟩ := ih has
        exact ⟨a', by simp [ha'], hae⟩
      · cases hok

/-- The error is that of the first member that fails. -/
theorem error?_eq (h : InOrder f F) (as : List α) :
    error? (F as) = as.findSome? fun a => error? (f a) := by
  induction as with
  | nil => rw [h.nil, List.findSome?_nil, error?]
  | cons a as ih =>
      rw [h.cons, error?_bind fun b _ => error?_bind_ok (F as) (b :: ·), ih, findSome?_cons_eq_or]

/-- The same, when the error of each member is itself the first in a list. -/
theorem error?_eq_flatMap (h : InOrder f F) {γ : Type} {g : α → List γ} {report : γ → Option ε}
    {as : List α} (hf : ∀ a ∈ as, error? (f a) = (g a).findSome? report) :
    error? (F as) = (as.flatMap g).findSome? report := by
  rw [h.error?_eq]
  induction as with
  | nil => rfl
  | cons a as ih =>
      rw [List.forall_mem_cons] at hf
      rw [findSome?_cons_eq_or, List.flatMap_cons, List.findSome?_append, hf.1, ih hf.2]

theorem append (h : InOrder f F) (as bs : List α) :
    F (as ++ bs) = (do
      let as' ← F as
      let bs' ← F bs
      .ok (as' ++ bs')) := by
  induction as with
  | nil =>
      rw [List.nil_append, h.nil]
      show F bs = F bs >>= fun bs' => .ok bs'
      cases F bs <;> rfl
  | cons a as ih =>
      rw [List.cons_append, h.cons, h.cons, ih]
      -- the same steps on both sides; only the brackets differ
      cases f a with
      | error e => rfl
      | ok b =>
          cases F as with
          | error e => rfl
          | ok bs' => cases F bs <;> rfl

end InOrder

end Sequence

end L32
