import L32.Proofs.Acceptance
import L32.Proofs.Termination

set_option autoImplicit false

/-! # What looking up a key in a dictionary gives

The lookup procedure is a definition in the language itself, and it calls itself through the
globals. `Datum.find` is its search as a function on data, defined on every datum whether it is an
association list or not, and `eval_lookupBody` says that the procedure computes it: one call of
the procedure is one step of the evaluator's recursion (`eval_lookup_app`), and the induction over
the chain of pairs is on top of that.

On the association list of a dictionary, the search finds the first entry whose key is the symbol
that is looked up (`find_ofList_of_stored`). Together they give `lookup_yields_first_entry`. -/

namespace L32

/-! ## The procedure and its search -/

/-- The search of the lookup procedure. The first member whose head is identical to the key
decides; a member that is no pair, or the end of the list, ends the search with the error of
`car`. -/
def Datum.find : Datum → Datum → Except EvalError Datum
  | .pair (.pair a b) t, k => if a.identical k then .ok b else t.find k
  | .pair .empty _, _ => .error (.emptyAccess "car")
  | .pair _ _, _ => .error (.notAPair "car")
  | .empty, _ => .error (.emptyAccess "car")
  | _, _ => .error (.notAPair "car")

/-- The body of the inner procedure of `lookupProcedure`. -/
def lookupBody : Expr :=
  .cond (.primCall "eq?" [.primCall "car" [.primCall "car" [.var "pairs"]], .var "k"])
    (.primCall "cdr" [.primCall "car" [.var "pairs"]])
    (.app (.app (.var lookupName) [.primCall "cdr" [.var "pairs"]]) [.var "k"])

def lookupClosure : Value :=
  .closure ["pairs"] [.lambda ["k"] [lookupBody]] []

/-- The environment in which `lookupBody` is evaluated. -/
def lookupScope (pairs key : Datum) : Env :=
  [("pairs", .data pairs), ("k", .data key)]

section Search

variable {rule : DictRule} {globals : Env}

theorem eq_lookupClosure_of_evaluates {v : Value}
    (h : Evaluates rule globals [] lookupProcedure (.ok v)) : v = lookupClosure := by
  obtain ⟨fuel, hfuel⟩ := h
  cases fuel with
  | zero => cases hfuel
  | succ fuel =>
      cases hfuel
      rfl

/-- One call `((dict e) k)` of the lookup procedure, where `dict` has its global meaning. -/
theorem eval_lookup_app (hg : globals.get? lookupName = some lookupClosure) {env : Env}
    (henv : env.get? lookupName = none) {n : Nat} {e k : Expr} {pairs key : Datum}
    (he : eval rule globals (n + 1) env e = .done (.data pairs))
    (hk : eval rule globals (n + 2) env k = .done (.data key)) :
    eval rule globals (n + 3) env (.app (.app (.var lookupName) [e]) [k])
      = eval rule globals (n + 2) (lookupScope pairs key) lookupBody := by
  have hname : eval rule globals (n + 1) env (.var lookupName) = .done lookupClosure := by
    simp only [eval, henv, hg, Option.none_or]
  -- the inner call gives the procedure that waits for the key
  have hinner : eval rule globals (n + 2) env (.app (.var lookupName) [e])
      = .done (.closure ["k"] [lookupBody] [("pairs", .data pairs)]) := by
    show (eval rule globals (n + 1) env (.var lookupName) >>= _) = _
    rw [hname, Outcome.done_bind]
    show ((eval rule globals (n + 1) env e >>= _) >>= _) = _
    rw [he]
    rfl
  show (eval rule globals (n + 2) env (.app (.var lookupName) [e]) >>= _) = _
  rw [hinner, Outcome.done_bind]
  show ((eval rule globals (n + 2) env k >>= _) >>= _) = _
  rw [hk]
  rfl

/-- **The lookup procedure computes the search**, on every datum and for every key. Each pair of
the chain takes two levels of fuel. -/
theorem eval_lookupBody (hg : globals.get? lookupName = some lookupClosure) (pairs key : Datum)
    (n : Nat) :
    eval rule globals (n + 2 * pairs.items.length + 5) (lookupScope pairs key) lookupBody
      = .ofExcept ((pairs.find key).map .data) := by
  induction pairs with
  | symbol _ | number _ | bool _ | str _ | empty => rfl
  | pair h t _ iht =>
      cases h with
      | symbol _ | number _ | bool _ | str _ | empty => rfl
      | pair a b =>
          have hfuel : n + 2 * (Datum.pair (a.pair b) t).items.length + 5
              = (n + 2 * t.items.length + 3) + 4 := by
            simp only [Datum.items, List.length_cons]
            omega
          rw [hfuel]
          set m := n + 2 * t.items.length + 3
          set scope := lookupScope (.pair (.pair a b) t) key
          have htest : eval rule globals (m + 3) scope
              (.primCall "eq?" [.primCall "car" [.primCall "car" [.var "pairs"]], .var "k"])
              = .done (.data (.bool (a.identical key))) := rfl
          show (eval rule globals (m + 3) scope _ >>= _) = _
          rw [htest, Outcome.done_bind]
          cases hsame : a.identical key with
          | true =>
              -- the head is the key: the value is the tail of the first member
              simp only [Datum.find, hsame, if_true]
              rfl
          | false =>
              -- the search goes on in the rest of the list, two levels deeper
              simp only [Datum.find, hsame, Bool.false_eq_true, if_false]
              have hrest : eval rule globals (m + 1) scope (.primCall "cdr" [.var "pairs"])
                  = .done (.data t) := rfl
              have hkey : eval rule globals (m + 2) scope (.var "k") = .done (.data key) := rfl
              exact (eval_lookup_app hg rfl hrest hkey).trans iht

/-- Looking up a key in quoted data, with enough fuel for the search. -/
theorem eval_lookup (hg : globals.get? lookupName = some lookupClosure) {env : Env}
    (henv : env.get? lookupName = none) (pairs key : Datum) (n : Nat) :
    eval rule globals (n + 2 * pairs.items.length + 6) env
        (.app (.app (.var lookupName) [.literal pairs]) [.literal key])
      = .ofExcept ((pairs.find key).map .data) := by
  have hcall : eval rule globals (n + 2 * pairs.items.length + 6) env
      (.app (.app (.var lookupName) [.literal pairs]) [.literal key])
      = eval rule globals (n + 2 * pairs.items.length + 5) (lookupScope pairs key) lookupBody :=
    eval_lookup_app hg henv rfl rfl
  rw [hcall]
  exact eval_lookupBody hg pairs key n

/-- Looking up a key in quoted data ends, and ends as the search does. -/
theorem evaluates_lookup (hg : globals.get? lookupName = some lookupClosure) {env : Env}
    (henv : env.get? lookupName = none) (pairs key : Datum) :
    Evaluates rule globals env
      (.app (.app (.var lookupName) [.literal pairs]) [.literal key])
      ((pairs.find key).map .data) :=
  ⟨_, eval_lookup hg henv pairs key 0⟩

end Search

/-! ## The association list of a dictionary -/

/-- Whether the key of an entry, a variable or a quoted symbol, is the datum looked up. -/
def Entry.hasKey (x : Entry Expr) (k : Datum) : Bool :=
  match x.key, k with
  | .var name, .symbol s => name == s
  | .literal (.symbol name), .symbol s => name == s
  | _, _ => false

/-- The datum that is stored for a value: that of the constant under the literal policy, the
quotation of the desugared value under the structural one. -/
def ValuePolicy.store : ValuePolicy → Expr → Except DesugarError Datum
  | literal, v => v.encode
  | structural, v => do
    let v' ← v.desugar structural
    v'.quote

/-- The pair that stands for an entry in the association list. -/
def Entry.StoredAs (policy : ValuePolicy) (x : Entry Expr) (d : Datum) : Prop :=
  ∃ name value, x.key.keyName = .ok name ∧ policy.store x.value = .ok value ∧
    d = .pair (.symbol name) value

theorem Entry.identical_eq_hasKey {x : Entry Expr} {name : String} (h : x.key.keyName = .ok name)
    (k : Datum) : (Datum.symbol name).identical k = x.hasKey k := by
  obtain ⟨key, value⟩ := x
  rcases Expr.keyName_eq_ok_iff.1 h with rfl | rfl
  · cases k <;> rfl
  · cases k <;> rfl

theorem storedAs_of_toDatum {policy : ValuePolicy} {x x' : Entry Expr} {d : Datum}
    (h : Entry.Related (Expr.Desugars policy) x x') (hd : x'.toDatum policy = .ok d) :
    x.StoredAs policy d := by
  simp only [Entry.toDatum, bind_eq_ok] at hd
  obtain ⟨name, hname, value, hvalue, hpair⟩ := hd
  refine ⟨name, value, (keyName_eq_ok_iff_of_desugar h.key).1 hname, ?_,
    (Except.ok.inj hpair).symm⟩
  cases policy with
  | literal => exact (encode_eq_ok_iff_of_desugar h.value).1 hvalue
  | structural =>
      simp only [ValuePolicy.store, bind_eq_ok]
      exact ⟨x'.value, h.value, hvalue⟩

/-- The call that a dictionary literal becomes, with the list that it searches. -/
theorem exists_stored_of_desugar_dict {policy : ValuePolicy} {entries : List (Entry Expr)}
    {e' : Expr} (h : (Expr.dict entries).desugar policy = .ok e') :
    ∃ ds, List.Forall₂ (Entry.StoredAs policy) entries ds ∧
      e' = .app (.var lookupName) [.literal (.ofList ds)] := by
  obtain ⟨entries', hrel, hcall⟩ := desugar_dict_eq_ok_iff.1 h
  obtain ⟨ds, hds, rfl⟩ := lookupCall_eq_ok_iff.1 hcall
  refine ⟨ds, ?_, rfl⟩
  have hdata := (toData_inOrder policy).eq_ok_iff.1 hds
  clear hcall h hds
  induction hrel generalizing ds with
  | nil =>
      cases hdata
      exact .nil
  | cons hx _ ih =>
      cases hdata with
      | cons hd hdata => exact .cons (storedAs_of_toDatum hx hd) (ih _ hdata)

/-- **The search finds the first entry with the key**, and runs into the end of the list when there
is none. -/
theorem find_ofList_of_stored {policy : ValuePolicy} {entries : List (Entry Expr)}
    {ds : List Datum} (h : List.Forall₂ (Entry.StoredAs policy) entries ds) (k : Datum) :
    match entries.find? (·.hasKey k) with
    | some x => ∃ d, policy.store x.value = .ok d ∧ (Datum.ofList ds).find k = .ok d
    | none => (Datum.ofList ds).find k = .error (.emptyAccess "car") := by
  induction h with
  | nil => rfl
  | cons hx _ ih =>
      obtain ⟨name, value, hname, hvalue, rfl⟩ := hx
      simp only [Datum.ofList, Datum.chain, Datum.find, List.find?_cons,
        Entry.identical_eq_hasKey hname]
      cases hkey : Entry.hasKey _ k with
      | true => exact ⟨value, hvalue, rfl⟩
      | false => exact ih

/-! ## The main statement -/

/-- **Looking up a datum in a dictionary literal** ends under any globals in which the lookup
procedure has its name, and in any local environment that leaves the name alone. It gives what is
stored for the value of the first entry with that key, and the error of `car` on an empty list when
there is no such entry, or the datum is no symbol. -/
theorem lookup_yields_first_entry {policy : ValuePolicy} {entries : List (Entry Expr)} {e' : Expr}
    (hdict : (Expr.dict entries).desugar policy = .ok e') {rule : DictRule} {globals env : Env}
    {lookup : Value} (hlookup : Evaluates rule globals [] lookupProcedure (.ok lookup))
    (hg : globals.get? lookupName = some lookup) (henv : env.get? lookupName = none) (k : Datum) :
    match entries.find? (·.hasKey k) with
    | some x => ∃ d, policy.store x.value = .ok d ∧
        Evaluates rule globals env (.app e' [.literal k]) (.ok (.data d))
    | none => Evaluates rule globals env (.app e' [.literal k]) (.error (.emptyAccess "car")) := by
  obtain rfl := eq_lookupClosure_of_evaluates hlookup
  obtain ⟨ds, hds, rfl⟩ := exists_stored_of_desugar_dict hdict
  have hsearch : Evaluates rule globals env _ _ := evaluates_lookup hg henv (.ofList ds) k
  have hfind := find_ofList_of_stored hds k
  split at hfind
  · obtain ⟨d, hd, hfound⟩ := hfind
    rw [hfound] at hsearch
    exact ⟨d, hd, hsearch⟩
  · rw [hfind] at hsearch
    exact hsearch

/-- Of two entries with one key the first counts, also where the names of the lookup procedure's own
parameters are bound to something else. -/
theorem lookup_yields_first_entry_of_two :
    ∃ e', (Expr.dict [⟨.var "a", .bool true⟩, ⟨.literal (.symbol "b"), .str "first"⟩,
          ⟨.var "b", .str "second"⟩]).desugar .structural = .ok e'
      ∧ Evaluates refuseDict [(lookupName, lookupClosure)] [("pairs", .data .empty)]
          (.app e' [.literal (.symbol "b")]) (.ok (.data (.str "first"))) := by
  have hlookup : Evaluates refuseDict [(lookupName, lookupClosure)] [] lookupProcedure
      (.ok lookupClosure) := ⟨1, rfl⟩
  have hdict : (Expr.dict [⟨.var "a", .bool true⟩, ⟨.literal (.symbol "b"), .str "first"⟩,
      ⟨.var "b", .str "second"⟩]).desugar .structural = .ok _ := rfl
  have henv : Env.get? [("pairs", .data .empty)] lookupName = none := rfl
  obtain ⟨d, hd, hresult⟩ := lookup_yields_first_entry hdict hlookup rfl henv (.symbol "b")
  cases hd
  exact ⟨_, rfl, hresult⟩

end L32
