import L32.Proofs.Acceptance

set_option autoImplicit false

/-! # Which error desugaring reports

An expression may hold many dictionary literals that cannot be desugared, and one error is reported.
It belongs to the first such literal in the order of `Expr.dictNodes`, in which the literals inside
a literal come before it (`error?_desugar`). So a bad entry of an inner literal counts before a bad
entry of the outer one, even where the outer entry stands further to the left: all keys and values
are desugared before any entry is looked at.

Of the literal itself the first bad entry decides, and of that entry the key before the value
(`error?_lookupCall`). The main statement is `desugar_reports_first_failing_dictionary`. -/

namespace L32

variable (policy : ValuePolicy)

/-! ## One dictionary literal -/

/-- What is wrong with an entry that is refused: its key if that is no key, and else its value. -/
def Entry.complaint (x : Entry Expr) : DesugarError :=
  if x.key.isKey then .nonLiteralValue x.value.toScheme else .malformedKey x.key.toScheme

theorem Expr.error?_keyName (e : Expr) :
    error? e.keyName = if e.isKey then none else some (.malformedKey e.toScheme) := by
  unfold keyName isKey
  split <;> simp_all [error?]

theorem Expr.error?_encode (e : Expr) :
    error? e.encode = if e.isConstant then none else some (.nonLiteralValue e.toScheme) := by
  cases e <;> rfl

/-- A value without dictionary literals can always be quoted, so only the literal policy refuses
values. -/
theorem error?_quoteValue {v : Expr} (hv : v.hasDict = false) :
    error? (policy.quoteValue v)
      = if policy = .literal ∧ v.isConstant = false then some (.nonLiteralValue v.toScheme)
        else none := by
  cases policy with
  | literal =>
      show error? v.encode = _
      rw [Expr.error?_encode]
      cases v.isConstant <;> rfl
  | structural => exact error?_eq_none_iff.2 ((Expr.exists_quote_iff v).2 hv)

theorem Entry.error?_toDatum {x : Entry Expr} (hx : x.value.hasDict = false) :
    error? (x.toDatum policy) = if policy.accepts x then none else some x.complaint := by
  have hbind : error? (x.toDatum policy)
      = (error? x.key.keyName).or (error? (policy.quoteValue x.value)) :=
    error?_bind fun name _ => error?_bind_ok _ (Datum.pair (.symbol name))
  rw [hbind, Expr.error?_keyName, error?_quoteValue policy hx]
  unfold Entry.complaint
  cases hkey : x.key.isKey with
  | false => cases policy <;> simp [ValuePolicy.accepts, hkey]
  | true =>
      cases policy with
      | literal => cases hvalue : x.value.isConstant <;> simp [ValuePolicy.accepts, hkey, hvalue]
      | structural => simp [ValuePolicy.accepts, hkey]

/-- **The lookup call of desugared entries reports the first entry that is refused.** -/
theorem error?_lookupCall {entries entries' : List (Entry Expr)}
    (h : Expr.desugarEntries policy entries = .ok entries') :
    error? (lookupCall policy entries')
      = (entries'.find? fun x => !policy.accepts x).map Entry.complaint := by
  have hvalues : ∀ x ∈ entries', x.value.hasDict = false := by
    intro x hx
    obtain ⟨_, _, hrel⟩ := exists_mem_left_of_forall₂ (desugarEntries_eq_ok_iff.1 h) hx
    exact hasDict_of_desugar hrel.value
  have hcall : error? (lookupCall policy entries') = error? (Entry.toData policy entries') :=
    error?_bind_ok _ _
  rw [hcall, (toData_inOrder policy).error?_eq]
  clear h hcall
  induction entries' with
  | nil => rfl
  | cons x xs ih =>
      rw [List.forall_mem_cons] at hvalues
      rw [List.findSome?_cons, List.find?_cons, Entry.error?_toDatum policy hvalues.1, ih hvalues.2]
      cases policy.accepts x <;> rfl

/-! ## Forms and programs -/

theorem Form.error?_desugar (f : Form) :
    error? (f.desugar policy) = error? (f.expression.desugar policy) := by
  cases f with
  | define name value => exact error?_bind_ok _ _
  | expr value => exact error?_bind_ok _ _

namespace Program

theorem error?_desugarForms (p : Program) :
    error? (p.desugarForms policy)
      = p.forms.findSome? fun f => error? (f.expression.desugar policy) := by
  have hforms : error? (p.desugarForms policy) = error? (Form.desugarAll policy p.forms) :=
    error?_bind_ok _ _
  rw [hforms, (Form.desugarAll_inOrder policy).error?_eq]
  simp only [Form.error?_desugar]

theorem error?_desugar (p : Program) : error? (p.desugar policy) = error? (p.desugarForms policy) :=
  error?_bind_ok _ _

end Program

/-! ## The main statement -/

/-- **The error that is reported is that of the first dictionary literal that fails**, taken in the
order in which the literals inside a literal come before it.

An expression fails exactly when the lookup call of some dictionary literal in it fails, once the
keys and values of that literal are desugared; the error is that of the first such literal. There it
is about the first entry that is refused: about its key if that is no key, and else about its value,
both as they are after desugaring. A program reports the error of its first form that fails. -/
theorem desugar_reports_first_failing_dictionary :
    (∀ e : Expr, (∃ err, e.desugar policy = .error err) ↔
        ∃ entries ∈ e.dictNodes, ∃ entries' err,
          Expr.desugarEntries policy entries = .ok entries' ∧
            lookupCall policy entries' = .error err)
    ∧ (∀ e : Expr, error? (e.desugar policy) = e.dictNodes.findSome? (nodeError? policy))
    ∧ (∀ entries entries', Expr.desugarEntries policy entries = .ok entries' →
        nodeError? policy entries
          = (entries'.find? fun x => !policy.accepts x).map Entry.complaint)
    ∧ (∀ p : Program, error? (p.desugarForms policy)
        = p.forms.findSome? fun f => error? (f.expression.desugar policy))
    ∧ (∀ p : Program, error? (p.desugar policy)
        = p.forms.findSome? fun f => error? (f.expression.desugar policy)) := by
  refine ⟨fun e => ?_, error?_desugar policy, ?_, Program.error?_desugarForms policy, ?_⟩
  · constructor
    · rintro ⟨err, h⟩
      obtain ⟨entries, hmem, entries', hrel, hcall⟩ := exists_node_of_desugar_error h
      exact ⟨entries, hmem, entries', err, desugarEntries_eq_ok_iff.2 hrel, hcall⟩
    · rintro ⟨entries, hmem, entries', err, hentries, hcall⟩
      -- this literal has an error, so there is a first one that has
      have hnode := (nodeError?_eq_some_iff policy).2 ⟨entries', hentries, hcall⟩
      have hsome : (e.dictNodes.findSome? (nodeError? policy)).isSome := by
        rw [List.findSome?_isSome_iff]
        exact ⟨entries, hmem, by rw [hnode]; rfl⟩
      rw [← error?_desugar] at hsome
      obtain ⟨err', herr'⟩ := Option.isSome_iff_exists.1 hsome
      exact ⟨err', error?_eq_some_iff.1 herr'⟩
  · intro entries entries' h
    rw [nodeError?, h]
    exact error?_lookupCall policy h
  · intro p
    rw [Program.error?_desugar, Program.error?_desugarForms]

/-- An inner dictionary with a bad key, behind an entry of the outer one whose key is bad too. The
inner one is reported, and about it the key although its value is refused as well. -/
theorem desugar_reports_first_failing_dictionary_inner :
    ∃ inner : List (Entry Expr), inner = [⟨.bool false, .var "x"⟩]
      ∧ error? ((Expr.dict [⟨.bool true, .bool true⟩, ⟨.var "a", .dict inner⟩]).desugar .literal)
        = nodeError? .literal inner
      ∧ nodeError? .literal inner = some (.malformedKey "#f") := by
  refine ⟨_, rfl, ?_, ?_⟩
  · exact (desugar_reports_first_failing_dictionary .literal).2.1 _
  · exact (desugar_reports_first_failing_dictionary .literal).2.2.1 [⟨.bool false, .var "x"⟩]
      [⟨.bool false, .var "x"⟩] rfl

end L32
