import L32.Proofs.Quoting

set_option autoImplicit false

/-! # Which programs can be desugared

Desugaring looks at the keys and values of a dictionary literal only after their own literals have
been replaced. The criterion here is on the expression as it is written: `ValuePolicy.accepts`
judges an entry, and desugaring succeeds exactly when every entry of every dictionary literal in
the expression, at any depth, is accepted (`exists_desugar_iff`).

Both directions go over the parts of an expression. The step is in two lemmas: where a part fails,
the whole fails with the same error (`desugar_of_parts_error`), and where all parts succeed, only a
dictionary literal can still fail, in its lookup call (`desugar_of_parts_ok`). So the error of an
expression is that of the first dictionary literal whose lookup call has one (`error?_desugar`). -/

namespace L32

/-! ## One node -/

section Step

variable (policy : ValuePolicy)

theorem desugarAll_map_value (bs : List (Binding Expr)) :
    Expr.desugarAll policy (bs.map Binding.value)
      = (Expr.desugarBindings policy bs).map (List.map Binding.value) := by
  induction bs with
  | nil => rfl
  | cons b bs ih =>
      simp only [List.map_cons, Expr.desugarAll, Expr.desugarBindings, ih]
      cases b.value.desugar policy with
      | error err => rfl
      | ok e' => cases Expr.desugarBindings policy bs <;> rfl

theorem desugarAll_flatMap_parts (xs : List (Entry Expr)) :
    Expr.desugarAll policy (xs.flatMap Entry.parts)
      = (Expr.desugarEntries policy xs).map (List.flatMap Entry.parts) := by
  induction xs with
  | nil => rfl
  | cons x xs ih =>
      simp only [List.flatMap_cons, Entry.parts, List.cons_append, List.nil_append,
        Expr.desugarAll, Expr.desugarEntries]
      rw [ih]
      cases x.key.desugar policy with
      | error err => rfl
      | ok k' =>
          cases x.value.desugar policy with
          | error err => rfl
          | ok e' => cases Expr.desugarEntries policy xs <;> rfl

variable {policy}

/-- A part that fails decides about the whole. -/
theorem desugar_of_parts_error {e : Expr} {err : DesugarError}
    (h : Expr.desugarAll policy e.parts = .error err) : e.desugar policy = .error err := by
  cases e with
  | number _ | bool _ | str _ | var _ | prim _ | literal _ =>
      simp [Expr.parts, Expr.desugarAll] at h
  | cond test yes no =>
      simpa [Expr.parts, Expr.desugarAll, Expr.desugar, bind_eq_error, bind_eq_ok] using h
  | lambda params body =>
      simpa [Expr.parts, Expr.desugar, bind_eq_error] using h
  | app operator operands =>
      simpa [Expr.parts, Expr.desugarAll, Expr.desugar, bind_eq_error] using h
  | letIn bindings body =>
      simpa [Expr.parts, Expr.desugar, (desugarAll_inOrder policy).append, desugarAll_map_value,
        bind_eq_error, map_eq_error, map_eq_ok] using h
  | dict entries =>
      rw [Expr.parts, desugarAll_flatMap_parts, map_eq_error] at h
      rw [Expr.desugar, bind_eq_error]
      exact Or.inl h

/-- When all parts succeed, so does the whole, unless it is a dictionary literal: then its lookup
call decides. -/
theorem desugar_of_parts_ok {e : Expr} {cs : List Expr}
    (h : Expr.desugarAll policy e.parts = .ok cs) :
    (e.isDict = false ∧ ∃ e', e.desugar policy = .ok e') ∨
      ∃ entries entries', e = .dict entries ∧
        List.Forall₂ (Entry.Related (Expr.Desugars policy)) entries entries' ∧
        e.desugar policy = lookupCall policy entries' := by
  cases e with
  | number _ | bool _ | str _ | var _ | prim _ | literal _ => exact Or.inl ⟨rfl, _, rfl⟩
  | cond test yes no =>
      simp only [Expr.parts, Expr.desugarAll, bind_eq_ok] at h
      obtain ⟨t, ht, _, ⟨y, hy, _, ⟨n, hn, _⟩, _⟩, _⟩ := h
      exact Or.inl ⟨rfl, _, (desugar_eq_ok_iff_congruent rfl).2 (.cond ht hy hn)⟩
  | lambda params body =>
      have hbody := desugarAll_eq_ok_iff.1 h
      exact Or.inl ⟨rfl, _, (desugar_eq_ok_iff_congruent rfl).2 (.lambda params hbody)⟩
  | app operator operands =>
      simp only [Expr.parts, Expr.desugarAll, bind_eq_ok, desugarAll_eq_ok_iff] at h
      obtain ⟨f, hf, as, has, _⟩ := h
      exact Or.inl ⟨rfl, _, (desugar_eq_ok_iff_congruent rfl).2 (.app hf has)⟩
  | letIn bindings body =>
      simp only [Expr.parts, (desugarAll_inOrder policy).append, desugarAll_map_value, bind_eq_ok,
        map_eq_ok, desugarAll_eq_ok_iff, desugarBindings_eq_ok_iff] at h
      obtain ⟨_, ⟨bs, hbs, _⟩, es, hes, _⟩ := h
      exact Or.inl ⟨rfl, _, (desugar_eq_ok_iff_congruent rfl).2 (.letIn hbs hes)⟩
  | dict entries =>
      rw [Expr.parts, desugarAll_flatMap_parts, map_eq_ok] at h
      obtain ⟨entries', hentries, _⟩ := h
      refine Or.inr ⟨entries, entries', rfl, desugarEntries_eq_ok_iff.1 hentries, ?_⟩
      rw [Expr.desugar, hentries]
      rfl

end Step

/-! ## Errors come from dictionary literals -/

section Errors

variable (policy : ValuePolicy)

/-- The error of a dictionary literal whose keys and values desugar, if its lookup call has one. -/
def nodeError? (entries : List (Entry Expr)) : Option DesugarError :=
  match Expr.desugarEntries policy entries with
  | .ok entries' => error? (lookupCall policy entries')
  | .error _ => none

theorem nodeError?_eq_some_iff {entries : List (Entry Expr)} {err : DesugarError} :
    nodeError? policy entries = some err ↔
      ∃ entries', Expr.desugarEntries policy entries = .ok entries' ∧
        lookupCall policy entries' = .error err := by
  unfold nodeError?
  cases Expr.desugarEntries policy entries with
  | ok entries' => simp [error?_eq_some_iff]
  | error err' => simp

/-- An expression reports the errors of its parts first, and then its own. -/
theorem error?_desugar_eq_parts (e : Expr) :
    error? (e.desugar policy)
      = (error? (Expr.desugarAll policy e.parts)).or (e.ownNode.findSome? (nodeError? policy)) := by
  cases hparts : Expr.desugarAll policy e.parts with
  | error err =>
      rw [desugar_of_parts_error hparts]
      rfl
  | ok cs =>
      show _ = e.ownNode.findSome? (nodeError? policy)
      rcases desugar_of_parts_ok hparts with ⟨hdict, e', he'⟩ | ⟨entries, entries', rfl, hrel, heq⟩
      · have hown : e.ownNode = [] := by
          cases e <;> simp_all [Expr.isDict, Expr.ownNode]
        rw [he', hown]
        rfl
      · have hentries := desugarEntries_eq_ok_iff.2 hrel
        rw [heq, Expr.ownNode, List.findSome?_singleton, nodeError?, hentries]

/-- **The error is that of the first dictionary literal that has one.** -/
theorem error?_desugar (e : Expr) :
    error? (e.desugar policy) = e.dictNodes.findSome? (nodeError? policy) := by
  induction e using Expr.parts_induction with
  | step e ih =>
      rw [error?_desugar_eq_parts, (desugarAll_inOrder policy).error?_eq_flatMap ih,
        Expr.dictNodes_eq_parts, List.findSome?_append]

variable {policy}

/-- **Every error is that of a dictionary literal** whose keys and values desugar but whose lookup
call cannot be made. -/
theorem exists_node_of_desugar_error {e : Expr} {err : DesugarError}
    (h : e.desugar policy = .error err) :
    ∃ entries ∈ e.dictNodes, ∃ entries',
      List.Forall₂ (Entry.Related (Expr.Desugars policy)) entries entries' ∧
        lookupCall policy entries' = .error err := by
  rw [← error?_eq_some_iff, error?_desugar] at h
  obtain ⟨entries, hmem, hnode⟩ := List.exists_of_findSome?_eq_some h
  obtain ⟨entries', hentries, hcall⟩ := (nodeError?_eq_some_iff policy).1 hnode
  exact ⟨entries, hmem, entries', desugarEntries_eq_ok_iff.1 hentries, hcall⟩

end Errors

/-! ## The criterion -/

/-- Whether an entry, as it is written, can become a pair: its key has to be a variable or a quoted
symbol, and under the literal policy its value has to be a constant. -/
def ValuePolicy.accepts : ValuePolicy → Entry Expr → Bool
  | literal, x => x.key.isKey && x.value.isConstant
  | structural, x => x.key.isKey

section Criterion

variable {policy : ValuePolicy}

/-- A value that was desugared can be made data exactly when the policy admits the value as it was
written. -/
theorem exists_quoteValue_iff {v v' : Expr} (h : v.desugar policy = .ok v') :
    (∃ d, policy.quoteValue v' = .ok d) ↔ (policy = .literal → v.isConstant = true) := by
  cases policy with
  | literal =>
      simp only [ValuePolicy.quoteValue, forall_const, ← Expr.exists_encode_iff,
        encode_eq_ok_iff_of_desugar h]
  | structural =>
      have hquote := (Expr.exists_quote_iff _).2 (hasDict_of_desugar h)
      simpa [ValuePolicy.quoteValue] using hquote

theorem exists_toDatum_iff {x x' : Entry Expr} (h : Entry.Related (Expr.Desugars policy) x x') :
    (∃ d, x'.toDatum policy = .ok d) ↔ policy.accepts x = true := by
  have hkey : (∃ name, x'.key.keyName = .ok name) ↔ x.key.isKey = true := by
    simp only [← Expr.exists_keyName_iff, keyName_eq_ok_iff_of_desugar h.key]
  have hvalue := exists_quoteValue_iff h.value
  have hboth : (∃ d, x'.toDatum policy = .ok d) ↔
      (∃ name, x'.key.keyName = .ok name) ∧ ∃ d, policy.quoteValue x'.value = .ok d := by
    simp only [Entry.toDatum, bind_eq_ok]
    constructor
    · rintro ⟨_, name, hname, d, hd, _⟩
      exact ⟨⟨name, hname⟩, d, hd⟩
    · rintro ⟨⟨name, hname⟩, d, hd⟩
      exact ⟨_, name, hname, d, hd, rfl⟩
  rw [hboth, hkey, hvalue]
  cases policy <;> simp [ValuePolicy.accepts]

/-- The lookup call of desugared entries can be made exactly when the entries are accepted. -/
theorem exists_lookupCall_iff {xs xs' : List (Entry Expr)}
    (h : List.Forall₂ (Entry.Related (Expr.Desugars policy)) xs xs') :
    (∃ e, lookupCall policy xs' = .ok e) ↔ ∀ x ∈ xs, policy.accepts x = true := by
  have hcall : (∃ e, lookupCall policy xs' = .ok e) ↔ ∃ ds, Entry.toData policy xs' = .ok ds := by
    simp only [lookupCall_eq_ok_iff]
    exact ⟨fun ⟨_, ds, hds, _⟩ => ⟨ds, hds⟩, fun ⟨ds, hds⟩ => ⟨_, ds, hds, rfl⟩⟩
  rw [hcall, (toData_inOrder policy).exists_ok_iff]
  clear hcall
  induction h with
  | nil => simp
  | cons hx _ ih =>
      rw [List.forall_mem_cons, List.forall_mem_cons]
      exact and_congr (exists_toDatum_iff hx) ih

/-- **Desugaring succeeds exactly when every entry of every dictionary literal is accepted.** -/
theorem exists_desugar_iff (e : Expr) :
    (∃ e', e.desugar policy = .ok e') ↔
      ∀ entries ∈ e.dictNodes, ∀ x ∈ entries, policy.accepts x = true := by
  constructor
  · rintro ⟨e', h⟩
    induction e using Expr.parts_induction generalizing e' with
    | step e ih =>
        cases hparts : Expr.desugarAll policy e.parts with
        | error err =>
            rw [desugar_of_parts_error hparts] at h
            cases h
        | ok cs =>
            rw [Expr.dictNodes_eq_parts, List.forall_mem_append]
            constructor
            · -- a literal inside a part: that part has been desugared too
              intro entries hmem
              obtain ⟨c, hc, hentries⟩ := List.mem_flatMap.1 hmem
              obtain ⟨c', _, hcc'⟩ :=
                exists_mem_left_of_forall₂ (desugarAll_eq_ok_iff.1 hparts).flip hc
              exact ih c hc c' hcc' entries hentries
            · -- the expression itself: its lookup call has been made
              intro entries hown
              rcases desugar_of_parts_ok hparts with ⟨hdict, _⟩ | ⟨xs, xs', rfl, hrel, heq⟩
              · cases e <;> simp_all [Expr.isDict, Expr.ownNode]
              · simp only [Expr.ownNode, List.mem_singleton] at hown
                subst hown
                rw [heq] at h
                exact (exists_lookupCall_iff hrel).1 ⟨e', h⟩
  · intro h
    -- a failure would come from a dictionary literal, whose entries are accepted
    cases hres : e.desugar policy with
    | ok e' => exact ⟨e', rfl⟩
    | error err =>
        obtain ⟨entries, hmem, entries', hrel, hcall⟩ := exists_node_of_desugar_error hres
        obtain ⟨call, hok⟩ := (exists_lookupCall_iff hrel).2 (h entries hmem)
        rw [hcall] at hok
        cases hok

end Criterion

/-! ## The main statement -/

/-- Under the structural policy only keys are refused: a value that was desugared holds no
dictionary literal, so it can be quoted. -/
theorem exists_malformedKey_of_desugar_structural {e : Expr} {err : DesugarError}
    (h : e.desugar .structural = .error err) : ∃ text, err = .malformedKey text := by
  obtain ⟨entries, _, entries', hrel, hcall⟩ := exists_node_of_desugar_error h
  have hdata : Entry.toData .structural entries' = .error err := by
    simpa [lookupCall, bind_eq_error] using hcall
  obtain ⟨x', hx', herr⟩ := (toData_inOrder .structural).exists_of_eq_error hdata
  obtain ⟨x, _, hx⟩ := exists_mem_left_of_forall₂ hrel hx'
  simp only [Entry.toDatum, bind_eq_error] at herr
  rcases herr with hkey | ⟨name, _, hvalue | ⟨_, _, herr⟩⟩
  · unfold Expr.keyName at hkey
    split at hkey
    · cases hkey
    · cases hkey
    · exact ⟨_, (Except.error.inj hkey).symm⟩
  · obtain ⟨d, hd⟩ := (Expr.exists_quote_iff _).2 (hasDict_of_desugar hx.value)
    simp [ValuePolicy.quoteValue, hd] at hvalue
  · cases herr

/-- **Acceptance on the expression as it is written.** Under the structural policy, desugaring
succeeds exactly when all keys of all dictionary literals that occur are variables or quoted
symbols; under the literal policy their values have to be constants too. So the structural policy
never complains about a value, and the literal policy always refuses a dictionary literal that is
the value of another. -/
theorem desugar_succeeds_iff_entries_accepted (e : Expr) :
    ((∃ e', e.desugar .structural = .ok e') ↔
        ∀ entries, (Expr.dict entries).Occurs e → ∀ x ∈ entries, x.key.isKey = true)
    ∧ ((∃ e', e.desugar .literal = .ok e') ↔
        ∀ entries, (Expr.dict entries).Occurs e →
          ∀ x ∈ entries, x.key.isKey = true ∧ x.value.isConstant = true)
    ∧ (∀ text, e.desugar .structural ≠ .error (.nonLiteralValue text))
    ∧ (∀ entries, (Expr.dict entries).Occurs e → (∃ x ∈ entries, x.value.isDict = true) →
        ∃ err, e.desugar .literal = .error err) := by
  have hliteral : (∃ e', e.desugar .literal = .ok e') ↔
      ∀ entries, (Expr.dict entries).Occurs e →
        ∀ x ∈ entries, x.key.isKey = true ∧ x.value.isConstant = true := by
    simp only [exists_desugar_iff, Expr.mem_dictNodes_iff, ValuePolicy.accepts, Bool.and_eq_true]
  refine ⟨?_, hliteral, ?_, ?_⟩
  · simp only [exists_desugar_iff, Expr.mem_dictNodes_iff, ValuePolicy.accepts]
  · intro text h
    obtain ⟨_, hkey⟩ := exists_malformedKey_of_desugar_structural h
    cases hkey
  · rintro entries hocc ⟨x, hx, hdict⟩
    cases hres : e.desugar .literal with
    | error err => exact ⟨err, rfl⟩
    | ok e' =>
        have hconst := (hliteral.1 ⟨e', hres⟩ entries hocc x hx).2
        cases hv : x.value <;> simp_all [Expr.isDict, Expr.isConstant]

/-- A dictionary as the value of a dictionary, under both policies. -/
theorem desugar_succeeds_iff_entries_accepted_nested :
    (∃ e', (Expr.dict [⟨.var "a", .dict [⟨.var "b", .bool true⟩]⟩]).desugar .structural = .ok e')
      ∧ ∃ err, (Expr.dict [⟨.var "a", .dict [⟨.var "b", .bool true⟩]⟩]).desugar .literal
          = .error err :=
  ⟨⟨_, rfl⟩, (desugar_succeeds_iff_entries_accepted _).2.2.2 _ .here ⟨_, .head _, rfl⟩⟩

end L32
