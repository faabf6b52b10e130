import L32.Proofs.Lookup

set_option autoImplicit false

/-! # Where a dictionary keeps its meaning

The call that a dictionary literal becomes refers to the lookup procedure by its name, and so does
the procedure itself when it goes on to the rest of a list. The name is an ordinary one: a program
may define it at top level, and procedures and `let` may bind it. A dictionary literal in the reach
of such a binding calls whatever is bound there (`dictionary_loses_meaning_where_name_rebound`).

Where the name is left alone the literal means what it should. A run keeps the lookup procedure
among the globals as long as no form defines the name otherwise: `leave_get?_lookupName` says so for
one form, `runForms_get?_lookupName` for a run. From there on only the reading of the name in the
local environment matters (`eval_lookup_env`), and the main statement
`dictionary_keeps_meaning_where_name_kept` follows. -/

namespace L32

/-- The program defines the name of the lookup procedure, if at all, as the lookup procedure. -/
def Program.KeepsLookup (p : Program) : Prop :=
  ∀ value, Form.define lookupName value ∈ p.forms → value = lookupProcedure

/-- The environment binds the name of the lookup procedure, if at all, to the lookup procedure. -/
def Env.KeepsLookup (env : Env) : Prop :=
  ∀ v, env.get? lookupName = some v → v = lookupClosure

/-- Applied to the key, the call `call` that a dictionary literal of these entries has become gives
what is stored for the first entry with that key, and the error of `car` on an empty list when there
is none. -/
def LooksUpFirst (policy : ValuePolicy) (globals env : Env) (entries : List (Entry Expr))
    (call : Expr) (key : Datum) : Prop :=
  match entries.find? (·.hasKey key) with
  | some x => ∃ d, policy.store x.value = .ok d ∧
      Evaluates refuseDict globals env (.app call [.literal key]) (.ok (.data d))
  | none =>
    Evaluates refuseDict globals env (.app call [.literal key]) (.error (.emptyAccess "car"))

/-! ## The globals of a run -/

section Globals

variable {rule : DictRule} {globals : Env}

/-- One form keeps the lookup procedure among the globals, unless it gives its name another value.
-/
theorem leave_get?_lookupName (hg : globals.get? lookupName = some lookupClosure) {f : Form}
    {v : Value} (hf : ∀ value, f = .define lookupName value → v = lookupClosure)
    (last : Option Value) :
    (f.leave v globals last).1.get? lookupName = some lookupClosure := by
  cases f with
  | expr value => exact hg
  | define name value =>
      by_cases hname : name = lookupName
      · subst hname
        have hv : v = lookupClosure := hf value rfl
        rw [hv]
        exact Env.get?_insert_self globals lookupName lookupClosure
      · show (globals.insert name v).get? lookupName = _
        rw [Env.get?_insert_of_ne globals v hname]
        exact hg

/-- **A run keeps the lookup procedure among the globals** when its forms define the name, if at
all, as the lookup procedure. -/
theorem runForms_get?_lookupName {fuel : Nat} {fs : List Form} {last : Option Value}
    (hg : globals.get? lookupName = some lookupClosure)
    (hfs : ∀ value, Form.define lookupName value ∈ fs → value = lookupProcedure) :
    (runForms rule fuel globals last fs).1.get? lookupName = some lookupClosure := by
  induction fs generalizing globals last with
  | nil => exact hg
  | cons f fs ih =>
      rw [runForms_cons]
      cases hv : eval rule globals fuel [] f.expression with
      | failed err => exact hg
      | outOfFuel => exact hg
      | done v =>
          have hclosure : ∀ value, f = .define lookupName value → v = lookupClosure := by
            rintro value rfl
            have hvalue : value = lookupProcedure := hfs value (by simp)
            rw [Form.expression, hvalue] at hv
            exact eq_lookupClosure_of_evaluates ⟨fuel, hv⟩
          exact ih (leave_get?_lookupName hg hclosure last) fun value hmem =>
            hfs value (List.mem_cons_of_mem f hmem)

end Globals

/-- Desugaring leaves the definitions of the name as they are: the lookup procedure holds no
dictionary literal. -/
theorem Program.KeepsLookup.desugarForms {policy : ValuePolicy} {p q : Program}
    (hp : p.KeepsLookup) (h : p.desugarForms policy = .ok q) : q.KeepsLookup := by
  intro value' hmem
  obtain ⟨f, hf, hff'⟩ := exists_mem_left_of_forall₂ (Program.desugarForms_eq_ok_iff.1 h) hmem
  cases Form.desugar_eq_ok_iff.1 hff' with
  | define name hvalue =>
      have hsource := hp _ hf
      subst hsource
      have hself : lookupProcedure.desugar policy = .ok lookupProcedure :=
        desugar_of_hasDict_eq_false policy rfl
      exact Except.ok.inj (hvalue.symm.trans hself)

/-- A desugared program that keeps the name leaves the lookup procedure among the globals, also when
it ends in an error. -/
theorem get?_lookupName_of_runs {policy : ValuePolicy} {p q : Program}
    (h : p.desugar policy = .ok q) (hp : p.KeepsLookup) {rule : DictRule} {globals : Env}
    {r : Except EvalError (Option Value)} (hrun : q.Runs rule [] globals r) :
    globals.get? lookupName = some lookupClosure := by
  obtain ⟨q', hq', rfl⟩ := Program.desugar_eq_ok_iff.1 h
  obtain ⟨fuel, hfuel⟩ := hrun
  cases fuel with
  | zero =>
      -- without fuel not even the definition in front is evaluated, and the run does not end
      cases r <;> cases hfuel
  | succ fuel =>
      have hrest : runForms rule (fuel + 1) [(lookupName, lookupClosure)] none q'.forms
          = (globals, .ofExcept r) := hfuel
      have hkept : (runForms rule (fuel + 1) [(lookupName, lookupClosure)] none q'.forms).1.get?
          lookupName = some lookupClosure := runForms_get?_lookupName rfl (hp.desugarForms hq')
      rw [hrest] at hkept
      exact hkept

/-! ## The local environment -/

/-- Looking a key up depends on the local environment only through the name of the lookup
procedure. -/
theorem eval_lookup_env {rule : DictRule} {globals env : Env}
    (hg : globals.get? lookupName = some lookupClosure) (henv : env.KeepsLookup)
    (pairs key : Datum) (fuel : Nat) :
    eval rule globals fuel env (.app (.app (.var lookupName) [.literal pairs]) [.literal key])
      = eval rule globals fuel []
          (.app (.app (.var lookupName) [.literal pairs]) [.literal key]) := by
  have hname : (env.get? lookupName).or (globals.get? lookupName) = some lookupClosure := by
    cases hv : env.get? lookupName with
    | none => exact hg
    | some v => rw [henv v hv, Option.some_or]
  have hempty : (Env.get? [] lookupName).or (globals.get? lookupName) = some lookupClosure := hg
  match fuel with
  | 0 => rfl
  | 1 => rfl
  | 2 => rfl
  | n + 3 => simp only [eval, Outcome.collect, hname, hempty]

theorem looksUpFirst_of_kept {policy : ValuePolicy} {globals env : Env}
    (hg : globals.get? lookupName = some lookupClosure) (henv : env.KeepsLookup)
    {entries : List (Entry Expr)} {call : Expr}
    (hdict : (Expr.dict entries).desugar policy = .ok call) (key : Datum) :
    LooksUpFirst policy globals env entries call key := by
  obtain ⟨ds, hds, rfl⟩ := exists_stored_of_desugar_dict hdict
  -- the search as it goes without local bindings, which makes no difference
  have hnil : Evaluates refuseDict globals []
      (.app (.app (.var lookupName) [.literal (.ofList ds)]) [.literal key])
      (((Datum.ofList ds).find key).map .data) := evaluates_lookup hg rfl (.ofList ds) key
  obtain ⟨fuel, hfuel⟩ := hnil
  have hsearch : Evaluates refuseDict globals env
      (.app (.app (.var lookupName) [.literal (.ofList ds)]) [.literal key])
      (((Datum.ofList ds).find key).map .data) :=
    ⟨fuel, (eval_lookup_env hg henv (.ofList ds) key fuel).trans hfuel⟩
  have hfind := find_ofList_of_stored hds key
  unfold LooksUpFirst
  cases hx : entries.find? (·.hasKey key) with
  | some x =>
      rw [hx] at hfind
      obtain ⟨d, hd, hfound⟩ := hfind
      rw [hfound] at hsearch
      exact ⟨d, hd, hsearch⟩
  | none =>
      rw [hx] at hfind
      rw [hfind] at hsearch
      exact hsearch

/-! ## The main statement -/

/-- **A dictionary keeps its meaning where the name of the lookup procedure is kept.** Let a
desugared program have run to its end, and let neither its top level nor the local environment give
the name another meaning. Then the call that a dictionary literal becomes, under any policy, looks
up every symbol in that scope: it gives what is stored for the first entry with that key, or the
error of `car` on an empty list. All other names may be defined and bound at will. -/
theorem dictionary_keeps_meaning_where_name_kept {policy : ValuePolicy} {p q : Program}
    (h : p.desugar policy = .ok q) (hp : p.KeepsLookup) {globals : Env} {last : Option Value}
    (hrun : q.Runs refuseDict [] globals (.ok last)) {env : Env} (henv : env.KeepsLookup)
    {policy' : ValuePolicy} {entries : List (Entry Expr)} {call : Expr}
    (hdict : (Expr.dict entries).desugar policy' = .ok call) (s : String) :
    LooksUpFirst policy' globals env entries call (.symbol s) := by
  have hg : globals.get? lookupName = some lookupClosure := get?_lookupName_of_runs h hp hrun
  exact looksUpFirst_of_kept hg henv hdict (.symbol s)

/-- After a program that defines `car`, `pairs` and `k`, in a scope that binds `pairs` and `k` to
other values and `dict` to the lookup procedure itself. -/
theorem dictionary_keeps_meaning_where_name_kept_amid_others :
    ∃ globals, (Program.mk [lookupDefinition, .define "car" (.bool false),
          .define "pairs" (.str "p"), .define "k" (.str "k")]).Runs refuseDict [] globals (.ok none)
      ∧ LooksUpFirst .literal globals
          [("pairs", .data .empty), ("k", .prim "cdr"), (lookupName, lookupClosure)]
          [⟨.var "a", .bool true⟩, ⟨.var "b", .str "x"⟩]
          (.app (.var "dict") [.literal (.ofList
            [.pair (.symbol "a") (.bool true), .pair (.symbol "b") (.str "x")])])
          (.symbol "b") := by
  have hrun : (Program.mk [lookupDefinition, .define "car" (.bool false),
      .define "pairs" (.str "p"), .define "k" (.str "k")]).Runs refuseDict [] _ (.ok none) :=
    ⟨1, rfl⟩
  have hp : (Program.mk [.define "car" (.bool false), .define "pairs" (.str "p"),
      .define "k" (.str "k")]).KeepsLookup := by
    intro value hmem
    simp [lookupName] at hmem
  have henv : Env.KeepsLookup
      [("pairs", .data .empty), ("k", .prim "cdr"), (lookupName, lookupClosure)] := by
    intro v hv
    exact (Option.some.inj hv).symm
  have hdesugar : (Program.mk [.define "car" (.bool false), .define "pairs" (.str "p"),
      .define "k" (.str "k")]).desugar .literal = .ok _ := rfl
  exact ⟨_, hrun, dictionary_keeps_meaning_where_name_kept hdesugar hp hrun henv rfl "b"⟩

/-- **Not in every scope.** After a program that defines the name of the lookup procedure, and in a
scope that binds it after the empty program, a dictionary literal with the key `a` does not look `a`
up: its call is not callable there. -/
theorem dictionary_loses_meaning_where_name_rebound :
    (∃ q globals call,
        (Program.mk [.define "dict" (.bool false)]).desugar .literal = .ok q
        ∧ q.Runs refuseDict [] globals (.ok none)
        ∧ (Expr.dict [⟨.var "a", .bool true⟩]).desugar .literal = .ok call
        ∧ ¬ LooksUpFirst .literal globals [] [⟨.var "a", .bool true⟩] call (.symbol "a"))
    ∧ (∃ q globals call,
        (Program.mk []).desugar .literal = .ok q
        ∧ q.Runs refuseDict [] globals (.ok none)
        ∧ (Expr.dict [⟨.var "a", .bool true⟩]).desugar .literal = .ok call
        ∧ ¬ LooksUpFirst .literal globals [("dict", .data (.bool false))]
            [⟨.var "a", .bool true⟩] call (.symbol "a")) := by
  refine ⟨⟨_, _, _, rfl, ⟨1, rfl⟩, rfl, ?_⟩, ⟨_, _, _, rfl, ⟨1, rfl⟩, rfl, ?_⟩⟩
  · rintro ⟨d, _, hd⟩
    have hfails : Evaluates refuseDict [("dict", .data (.bool false))] []
        (.app (.app (.var "dict") [.literal (.ofList [.pair (.symbol "a") (.bool true)])])
          [.literal (.symbol "a")]) (.error .notCallable) := ⟨3, rfl⟩
    cases hd.unique hfails
  · rintro ⟨d, _, hd⟩
    have hfails : Evaluates refuseDict [("dict", lookupClosure)] [("dict", .data (.bool false))]
        (.app (.app (.var "dict") [.literal (.ofList [.pair (.symbol "a") (.bool true)])])
          [.literal (.symbol "a")]) (.error .notCallable) := ⟨3, rfl⟩
    cases hd.unique hfails

end L32
