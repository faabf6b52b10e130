import L32.Proofs.Lookup

set_option autoImplicit false

/-! # Looking up a key in any datum

The association list of a dictionary literal is always a list of pairs with symbols in front. The
lookup procedure takes any datum, though: a list may be dotted, its members may be no pairs, and the
key may be anything. `Datum.find` follows the procedure from one pair of the chain to the next. Here
it is read as a whole: the first member that decides is looked for, and if none does, the end of the
chain decides (`find_eq_answer`).

The main statement `lookup_searches_any_datum` says that the procedure always comes to an end, with
what the search gives, and how much fuel is enough for it. -/

namespace L32

namespace Datum

/-- The search does not go on behind this member: it is a pair with a head identical to the key, or
no pair. -/
def decides : Datum → Datum → Bool
  | .pair a _, k => a.identical k
  | _, _ => true

/-- What the search makes of the value at which it stops: the tail of a pair, and the error of `car`
on what is no pair. -/
def answer : Datum → Except EvalError Datum
  | .pair _ b => .ok b
  | .empty => .error (.emptyAccess "car")
  | _ => .error (.notAPair "car")

/-- **The search stops at the first member that decides**, or else at the end of the chain. -/
theorem find_eq_answer (v k : Datum) :
    v.find k = ((v.items.find? (·.decides k)).getD v.final).answer := by
  induction v with
  | symbol _ | number _ | bool _ | str _ | empty => rfl
  | pair h t _ iht =>
      cases h with
      | symbol _ | number _ | bool _ | str _ | empty => rfl
      | pair a b =>
          rw [find, items, final, List.find?_cons, decides]
          cases a.identical k with
          | true => rfl
          | false => exact iht

end Datum

/-- **The lookup procedure searches every datum for every key**, under any globals in which it has
its name and in any local environment that leaves the name alone. The evaluation of `((dict 'v) 'k)`
comes to an end, in the datum or the error that the search gives, with any fuel that allows two
levels for each pair of the chain.

The search goes along the chain of pairs `v`. It passes over the members that are pairs with a head
other than `k`, and at the first other member, or else at the end of the chain, it gives the tail of
a pair, and the error of `car` where there is no pair. -/
theorem lookup_searches_any_datum {rule : DictRule} {globals env : Env} {lookup : Value}
    (hlookup : Evaluates rule globals [] lookupProcedure (.ok lookup))
    (hg : globals.get? lookupName = some lookup) (henv : env.get? lookupName = none)
    (v k : Datum) :
    (∀ fuel, 2 * v.items.length + 6 ≤ fuel →
      eval rule globals fuel env (.app (.app (.var lookupName) [.literal v]) [.literal k])
        = .ofExcept ((v.find k).map .data))
    ∧ v.find k = ((v.items.find? (·.decides k)).getD v.final).answer := by
  obtain rfl := eq_lookupClosure_of_evaluates hlookup
  refine ⟨?_, Datum.find_eq_answer v k⟩
  intro fuel hfuel
  obtain ⟨n, rfl⟩ : ∃ n, fuel = n + 2 * v.items.length + 6 :=
    ⟨fuel - (2 * v.items.length + 6), by omega⟩
  exact eval_lookup hg henv v k n

/-- A dotted chain of two pairs that ends in a symbol. The head of the first is not a number, and
that of the second is the empty list. -/
def dottedChain : Datum :=
  .pair (.pair (.number (0 / 0)) (.bool true)) (.pair (.pair .empty .empty) (.symbol "x"))

/-- What is not a number is not identical to itself, so the search goes on to the end of the
chain. -/
theorem lookup_searches_any_datum_dotted :
    Evaluates refuseDict [(lookupName, lookupClosure)] []
      (.app (.app (.var lookupName) [.literal dottedChain]) [.literal (.number (0 / 0))])
      (.error (.notAPair "car")) := by
  have hlookup : Evaluates refuseDict [(lookupName, lookupClosure)] [] lookupProcedure
      (.ok lookupClosure) := ⟨1, rfl⟩
  have henv : Env.get? [] lookupName = none := rfl
  obtain ⟨hends, hfind⟩ :=
    lookup_searches_any_datum hlookup rfl henv dottedChain (.number (0 / 0))
  refine ⟨10, (hends 10 (by decide)).trans ?_⟩
  rw [hfind]
  rfl

end L32
