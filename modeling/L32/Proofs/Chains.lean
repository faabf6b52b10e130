import L32.Datum

set_option autoImplicit false

/-! # Lists and chains of pairs

A chain of pairs is built from its end: the last value is paired with what stands at the end, and so
on to the front (`chain_eq_foldl`). It is taken apart from its front, one tail after the other.
`afterTails n` is what `n` tails lead to, and everything that is read off a chain is read off there:
a member is the head that is found (`getElem?_items`), and the end is the first value without a tail
(`afterTails_not_pair_iff`). It is a proper list if the tails lead to the empty list
(`isList_iff_afterTails`).

The main statement `lists_are_chains` says that both ways fit together, for lists of all lengths and
for chains with all ends. -/

namespace L32.Datum

/-! ## Along the tails -/

/-- What is reached from a value by `n` tails, if there are that many. -/
def afterTails : Nat → Datum → Option Datum
  | 0, d => some d
  | n + 1, d => d.tail?.bind (afterTails n)

/-- A member is the head of the pair that as many tails lead to. -/
theorem getElem?_items (d : Datum) (i : Nat) : d.items[i]? = (d.afterTails i).bind head? := by
  induction i generalizing d with
  | zero => cases d <;> rfl
  | succ i ih =>
      cases d with
      | pair h t => exact ih t
      | symbol _ | number _ | bool _ | str _ | empty => rfl

/-- **There is one place along the tails without a pair**, the end of the chain, and it is reached
when all members have been passed. -/
theorem afterTails_not_pair_iff {d e : Datum} {n : Nat} :
    d.afterTails n = some e ∧ e.isPair = false ↔ n = d.items.length ∧ e = d.final := by
  induction n generalizing d with
  | zero =>
      cases d with
      | pair h t =>
          -- nothing has been passed, and there is a member
          constructor
          · rintro ⟨hd, he⟩
            cases hd
            cases he
          · rintro ⟨hlength, _⟩
            cases hlength
      | symbol _ | number _ | bool _ | str _ | empty =>
          constructor
          · rintro ⟨hd, _⟩
            cases hd
            exact ⟨rfl, rfl⟩
          · rintro ⟨_, rfl⟩
            exact ⟨rfl, rfl⟩
  | succ n ih =>
      cases d with
      | pair h t =>
          rw [items, List.length_cons, Nat.add_right_cancel_iff, final]
          exact ih
      | symbol _ | number _ | bool _ | str _ | empty =>
          constructor
          · rintro ⟨hd, _⟩
            cases hd
          · rintro ⟨hlength, _⟩
            cases hlength

theorem isList_iff_final (d : Datum) : d.isList = true ↔ d.final = empty := by
  induction d with
  | pair h t _ iht => exact iht
  | symbol _ | number _ | bool _ | str _ | empty => simp [isList, final]

/-- **A value is a proper list exactly if tails lead from it to the empty list.** -/
theorem isList_iff_afterTails (d : Datum) : d.isList = true ↔ ∃ n, d.afterTails n = some empty := by
  rw [isList_iff_final]
  constructor
  · intro h
    obtain ⟨hreach, _⟩ := afterTails_not_pair_iff.2 ⟨rfl, h.symm⟩
    exact ⟨d.items.length, hreach⟩
  · rintro ⟨n, hn⟩
    exact (afterTails_not_pair_iff.1 ⟨hn, rfl⟩).2.symm

/-! ## Lists -/

/-- A chain is built from its end: of the values in reverse order, each becomes the head of a pair
with what has been built before. -/
theorem chain_eq_foldl (last : Datum) (ds : List Datum) :
    chain last ds = ds.reverse.foldl (fun tail head => pair head tail) last := by
  rw [List.foldl_reverse]
  induction ds with
  | nil => rfl
  | cons d ds ih => rw [chain, ih, List.foldr_cons]

@[simp] theorem isList_ofList (ds : List Datum) : (ofList ds).isList = true :=
  isList_chain empty ds

@[simp] theorem items_ofList (ds : List Datum) : (ofList ds).items = ds := by
  rw [ofList, items_chain]
  exact List.append_nil ds

@[simp] theorem final_ofList (ds : List Datum) : (ofList ds).final = empty :=
  final_chain empty ds

/-- **A value is a proper list exactly if it is the list of its members.** -/
theorem isList_iff_eq_ofList {d : Datum} : d.isList = true ↔ d = ofList d.items := by
  constructor
  · intro h
    rw [isList_iff_final] at h
    calc d = chain d.final d.items := (chain_final_items d).symm
      _ = ofList d.items := by rw [h, ofList]
  · intro h
    rw [h]
    exact isList_ofList _

/-- Of two values that are equal with numbers compared as numbers, both are proper lists or none
is. -/
theorem isList_eq_of_same {a b : Datum} (h : a.same b = true) : a.isList = b.isList := by
  fun_induction same a b with
  | case5 _ a _ b _ iht =>
      rw [Bool.and_eq_true] at h
      exact iht h.2
  | case1 | case2 | case3 | case4 | case6 => rfl
  | case7 => cases h

/-! ## The main statement -/

/-- **Lists and chains of pairs correspond exactly.**

* The list of some values is their reverse order folded onto the empty list, and a proper list, and
  its members are these values in order.
* A value is a proper list exactly if it is the list of its members, and exactly if tails lead from
  it to the empty list. With numbers compared as numbers, it equals that list exactly if it is a
  proper list and equals itself: a NaN equals nothing.
* Of every value, proper list or not, the members are the heads along the tails, the end is the only
  place along the tails without a pair, and the members folded as pairs onto the end are the value
  again. -/
theorem lists_are_chains :
    (∀ ds : List Datum, ofList ds = ds.reverse.foldl (fun tail head => pair head tail) empty
      ∧ (ofList ds).isList = true ∧ (ofList ds).items = ds)
    ∧ (∀ d : Datum, (d.isList = true ↔ d = ofList d.items)
      ∧ (d.isList = true ↔ ∃ n, d.afterTails n = some empty)
      ∧ ((d == ofList d.items) = true ↔ d.isList = true ∧ (d == d) = true))
    ∧ ∀ d : Datum, (∀ i, d.items[i]? = (d.afterTails i).bind head?)
      ∧ (∀ n e, d.afterTails n = some e ∧ e.isPair = false ↔ n = d.items.length ∧ e = d.final)
      ∧ d.items.foldr pair d.final = d := by
  refine ⟨fun ds => ⟨chain_eq_foldl empty ds, isList_ofList ds, items_ofList ds⟩, fun d => ?_,
    fun d => ⟨getElem?_items d, fun n e => afterTails_not_pair_iff, ?_⟩⟩
  · refine ⟨isList_iff_eq_ofList, isList_iff_afterTails d, ?_, ?_⟩
    · intro h
      have hlist : d.isList = true := (isList_eq_of_same h).trans (isList_ofList d.items)
      rw [← isList_iff_eq_ofList.1 hlist] at h
      exact ⟨hlist, h⟩
    · rintro ⟨hlist, hself⟩
      rwa [← isList_iff_eq_ofList.1 hlist]
  · rw [← List.foldl_reverse, ← chain_eq_foldl]
    exact chain_final_items d

/-- A chain of a list and a string that ends in a number: two members, and no proper list. -/
example :
    let d := Datum.pair (ofList [symbol "a", empty]) (.pair (.str "b") (.number 1))
    d.items = [ofList [symbol "a", empty], .str "b"] ∧ d.final = .number 1 ∧ d.isList = false :=
  ⟨rfl, rfl, rfl⟩

end L32.Datum
