import L32.Proofs.Atoms
import L32.Proofs.Json.RoundTrip

set_option autoImplicit false

/-! # How deep desugared programs nest

A dictionary literal is a flat list of entries, but the list that it becomes is a chain of pairs,
and in JSON each pair takes two levels. So desugaring makes a program nest deeper, by two levels for
each entry:

* a dictionary with `n` entries, at whatever place in an expression, leaves something behind that
  nests `2 * n + 7` deep or deeper (`le_depth_of_occurs`). A dictionary inside a value of another
  one is quoted as code, which never makes it shallower (`depth_le_of_quoteCode`);
* under the literal policy, an expression whose dictionaries have at most `k` entries gets at most
  `2 * k + 2` levels deeper (`fits_of_desugar_literal`).

Numbers are atoms, and desugaring makes none, so they stay finite (`allFinite_of_desugar`). -/

namespace L32

/-! ## Lists of data -/

namespace Datum

/-- A member of a list stands two levels deeper for each member up to it. -/
theorem depth_add_le_ofList {d : Datum} {ds : List Datum} (hd : d ∈ ds) (front : List Datum) :
    d.toJson.depth + 2 * front.length + 2 ≤ (ofList (front ++ ds)).toJson.depth := by
  induction front with
  | nil =>
      rw [List.nil_append, List.length_nil]
      induction ds with
      | nil => cases hd
      | cons c cs ih =>
          rw [ofList_cons, depth_toJson_pair]
          rcases List.mem_cons.1 hd with rfl | hd
          · omega
          · have := ih hd
            omega
  | cons c front ih =>
      rw [List.cons_append, ofList_cons, depth_toJson_pair, List.length_cons]
      omega

theorem length_le_depth_ofList (ds : List Datum) : 2 * ds.length ≤ (ofList ds).toJson.depth := by
  induction ds with
  | nil => simp
  | cons d ds ih =>
      rw [ofList_cons, depth_toJson_pair, List.length_cons]
      omega

/-- A list nests at most two levels deeper for each member. -/
theorem depth_ofList_le {ds : List Datum} {n : Nat} (h : ∀ d ∈ ds, d.toJson.depth ≤ n) :
    (ofList ds).toJson.depth ≤ n + 2 * ds.length := by
  induction ds with
  | nil => simp [ofList, chain, toJson]
  | cons d ds ih =>
      have hd := h d (by simp)
      have hds := ih fun c hc => h c (by simp [hc])
      rw [ofList_cons, depth_toJson_pair, List.length_cons]
      omega

end Datum

/-! ## Quoting keeps the depth -/

namespace Expr

theorem one_le_depth (e : Expr) : 1 ≤ e.toJson.depth := by
  cases e <;> simp [toJson]

theorem depth_le_of_mem_operands {e : Expr} {es : List Expr} (h : e ∈ es) :
    e.toJson.depth ≤ Json.depthOfItems (toJsons es) :=
  depthOfItems_toJsons_le.1 (le_refl _) e h

/-- A part does not nest deeper than the whole. -/
theorem depth_lt_of_mem_parts {c e : Expr} (h : c ∈ e.parts) :
    c.toJson.depth < e.toJson.depth := by
  cases e with
  | number _ | bool _ | str _ | var _ | prim _ | literal _ => cases h
  | cond test yes no =>
      rw [depth_toJson_cond]
      simp only [parts, List.mem_cons, List.not_mem_nil, or_false] at h
      rcases h with rfl | rfl | rfl <;> omega
  | lambda params body =>
      rw [depth_toJson_lambda]
      have := depth_le_of_mem_operands (show c ∈ body from h)
      omega
  | app operator operands =>
      rw [depth_toJson_app]
      rcases List.mem_cons.1 h with rfl | h
      · omega
      · have := depth_le_of_mem_operands h
        omega
  | letIn bindings body =>
      rw [depth_toJson_letIn]
      rcases List.mem_append.1 h with h | h
      · obtain ⟨b, hb, rfl⟩ := List.mem_map.1 h
        have := depthOfItems_bindingsToJson_le.1 (le_refl _) b hb
        omega
      · have := depth_le_of_mem_operands h
        omega
  | dict entries =>
      rw [depth_toJson_dict]
      obtain ⟨x, hx, hc⟩ := List.mem_flatMap.1 h
      have := depthOfItems_entriesToJson_le.1 (le_refl _) x hx
      simp only [Entry.parts, List.mem_cons, List.not_mem_nil, or_false] at hc
      rcases hc with rfl | rfl <;> omega

theorem depth_add_le_of_quoteCodes {es : List Expr} {ds : List Datum} (hds : quoteCodes es = .ok ds)
    (ih : ∀ e ∈ es, ∀ {d}, e.quoteCode = .ok d → e.toJson.depth ≤ d.toJson.depth)
    (front : List Datum) : ∀ e ∈ es,
      e.toJson.depth + (2 * front.length + 2) ≤ (Datum.ofList (front ++ ds)).toJson.depth := by
  intro e he
  obtain ⟨d, hd, hed⟩ := exists_mem_left_of_forall₂ (quoteCodes_inOrder.eq_ok_iff.1 hds).flip he
  have := ih e he hed
  have := Datum.depth_add_le_ofList hd front
  omega

/-- **Code nests at least as deep as data as it does as code.** -/
theorem depth_le_of_quoteCode {e : Expr} {d : Datum} (h : e.quoteCode = .ok d) :
    e.toJson.depth ≤ d.toJson.depth := by
  induction e using Expr.induction generalizing d with
  | leaf e he =>
      cases e with
      | number _ | bool _ | str _ | var _ | prim _ =>
          cases h
          simp [toJson, Datum.toJson]
      | literal d' =>
          cases h
          have hmem : d' ∈ [d'] := by simp
          have hdepth : d'.toJson.depth + 4 ≤ (Datum.headed "quote" [d']).toJson.depth :=
            Datum.depth_add_le_ofList hmem [.symbol "quote"]
          simp only [toJson, Json.depth_tagged]
          omega
      | cond | lambda | app | letIn | dict => cases he
  | cond test yes no iht ihy ihn =>
      simp only [quoteCode, bind_eq_ok] at h
      obtain ⟨t, ht, y, hy, n, hn, h⟩ := h
      cases h
      have hmem : ∀ c ∈ [t, y, n], c.toJson.depth + 4
          ≤ (Datum.headed "if" [t, y, n]).toJson.depth := by
        intro c hc
        exact Datum.depth_add_le_ofList hc [.symbol "if"]
      have h₁ := hmem t (by simp)
      have h₂ := hmem y (by simp)
      have h₃ := hmem n (by simp)
      have := iht ht
      have := ihy hy
      have := ihn hn
      rw [depth_toJson_cond]
      omega
  | lambda params body ih =>
      simp only [quoteCode, bind_eq_ok] at h
      obtain ⟨ds, hds, h⟩ := h
      cases h
      have hbody := depth_add_le_of_quoteCodes hds ih
        [.symbol "lambda", .ofList (params.map .symbol)]
      have hlength := Datum.length_le_depth_ofList
        (.symbol "lambda" :: .ofList (params.map .symbol) :: ds)
      simp only [List.length_cons, List.length_nil, List.cons_append,
        List.nil_append] at hbody hlength
      rw [depth_toJson_lambda, Datum.headed]
      have := depthOfItems_toJsons_le.2 fun e he => Nat.le_sub_of_add_le (hbody e he)
      omega
  | app operator operands ihf ih =>
      simp only [quoteCode, bind_eq_ok] at h
      obtain ⟨f, hf, ds, hds, h⟩ := h
      cases h
      have hoperands := depth_add_le_of_quoteCodes hds ih [f]
      have hmem : f ∈ f :: ds := by simp
      have hoperator := Datum.depth_add_le_ofList hmem []
      simp only [List.length_cons, List.length_nil, List.cons_append,
        List.nil_append] at hoperands hoperator
      have := ihf hf
      have := one_le_depth operator
      rw [depth_toJson_app]
      have := depthOfItems_toJsons_le.2 fun e he => Nat.le_sub_of_add_le (hoperands e he)
      omega
  | letIn bindings body ihd ih =>
      simp only [quoteCode, bind_eq_ok] at h
      obtain ⟨bs, hbs, ds, hds, h⟩ := h
      cases h
      have hbody := depth_add_le_of_quoteCodes hds ih [.symbol "let", .ofList bs]
      have hlength := Datum.length_le_depth_ofList (.symbol "let" :: .ofList bs :: ds)
      have hmem : Datum.ofList bs ∈ Datum.ofList bs :: ds := by simp
      have hlist := Datum.depth_add_le_ofList hmem [.symbol "let"]
      have hbindings : ∀ b ∈ bindings,
          b.value.toJson.depth + 6 ≤ (Datum.ofList bs).toJson.depth := by
        intro b hb
        obtain ⟨c, hc, hbc⟩ := exists_mem_left_of_forall₂
          (quoteBindings_inOrder.eq_ok_iff.1 hbs).flip hb
        obtain ⟨d, hd, rfl⟩ := map_eq_ok.1 hbc
        have hinner : d ∈ [d] := by simp
        have h₁ := Datum.depth_add_le_ofList hinner [.symbol b.name]
        have h₂ := Datum.depth_add_le_ofList hc []
        simp only [List.length_cons, List.length_nil, List.cons_append, List.nil_append] at h₁ h₂
        have := ihd b hb hd
        omega
      simp only [List.length_cons, List.length_nil, List.cons_append,
        List.nil_append] at hbody hlength hlist
      rw [depth_toJson_letIn, Datum.headed]
      have := depthOfItems_toJsons_le.2 fun e he => Nat.le_sub_of_add_le (hbody e he)
      have : Json.depthOfItems (bindingsToJson bindings) ≤ (Datum.ofList bs).toJson.depth :=
        depthOfItems_bindingsToJson_le.2 fun b hb => by
          have := hbindings b hb
          omega
      omega
  | dict entries _ => cases h

/-- Only a leaf itself occurs in it. -/
theorem Occurs.eq_of_isLeaf {d e : Expr} (h : d.Occurs e) (he : e.isLeaf = true) : d = e := by
  cases h with
  | here => rfl
  | inside hc _ =>
      rw [parts_of_isLeaf he] at hc
      cases hc

end Expr

/-! ## A dictionary leaves its length behind -/

section LowerBound

variable {policy : ValuePolicy}

/-- The call of the lookup procedure adds four levels to its list. -/
theorem depth_toJson_lookupCall (ds : List Datum) :
    (Expr.app (.var lookupName) [.literal (.ofList ds)]).toJson.depth
      = (Datum.ofList ds).toJson.depth + 4 := by
  rw [Expr.depth_toJson_app]
  simp [Expr.toJsons, Expr.toJson, Json.depthOfItems]

theorem depth_le_of_quoteValue {e : Expr} {d : Datum} (h : policy.quoteValue e = .ok d)
    (he : e.isLeaf = false) : e.toJson.depth ≤ d.toJson.depth := by
  cases policy with
  | literal =>
      have hconstant := (Expr.exists_encode_iff e).1 ⟨d, h⟩
      cases e <;> simp_all [Expr.isLeaf, Expr.isConstant]
  | structural =>
      have hcode : e.quoteCode = .ok d := by
        cases e with
        | literal _ => cases he
        | _ => exact h
      exact Expr.depth_le_of_quoteCode hcode

/-- **A dictionary with `n` entries leaves `2 * n + 7` levels behind**, also inside another one. -/
theorem le_depth_of_occurs {entries : List (Entry Expr)} (hne : entries ≠ []) {e e' : Expr}
    (h : e.desugar policy = .ok e') (hocc : (Expr.dict entries).Occurs e) :
    2 * entries.length + 7 ≤ e'.toJson.depth := by
  induction hocc generalizing e' with
  | here =>
      obtain ⟨entries', hentries, hcall⟩ := desugar_dict_eq_ok_iff.1 h
      obtain ⟨ds, hds, rfl⟩ := lookupCall_eq_ok_iff.1 hcall
      have hpairs := (toData_inOrder policy).eq_ok_iff.1 hds
      have hlength : ds.length = entries.length :=
        hpairs.length_eq.symm.trans hentries.length_eq.symm
      -- the last pair is the deepest: all others are in front of it
      obtain ⟨front, last, rfl⟩ : ∃ front last, ds = front ++ [last] := by
        rcases List.eq_nil_or_concat' ds with rfl | h
        · exact absurd (List.length_eq_zero_iff.1 hlength.symm) hne
        · exact h
      have hmem : last ∈ [last] := by simp
      have hdepth := Datum.depth_add_le_ofList hmem front
      obtain ⟨x, _, hx⟩ := exists_mem_left_of_forall₂ hpairs (List.mem_append_right front hmem)
      obtain ⟨name, value, _, _, rfl⟩ := Entry.toDatum_eq_ok_iff.1 hx
      rw [Datum.depth_toJson_pair] at hdepth
      have hsymbol : (Datum.symbol name).toJson.depth = 1 := by simp [Datum.toJson]
      rw [List.length_append, List.length_singleton] at hlength
      rw [depth_toJson_lookupCall]
      omega
  | @inside c e hc hocc ih =>
      cases hd : e.isDict with
      | false =>
          have hparts := ((desugar_eq_ok_iff_congruent hd).1 h).parts
          obtain ⟨c', hc', hcc'⟩ := exists_mem_left_of_forall₂ hparts.flip hc
          have := ih hcc'
          have := Expr.depth_lt_of_mem_parts hc'
          omega
      | true =>
          cases e with
          | dict outer =>
              obtain ⟨outer', houter, hcall⟩ := desugar_dict_eq_ok_iff.1 h
              obtain ⟨ds, hds, rfl⟩ := lookupCall_eq_ok_iff.1 hcall
              obtain ⟨x, hx, hcx⟩ := List.mem_flatMap.1 hc
              obtain ⟨x', hx', hxx'⟩ := exists_mem_left_of_forall₂ houter.flip hx
              obtain ⟨d, hd, hxd⟩ := exists_mem_left_of_forall₂
                ((toData_inOrder policy).eq_ok_iff.1 hds).flip hx'
              obtain ⟨name, value, hname, hvalue, rfl⟩ := Entry.toDatum_eq_ok_iff.1 hxd
              have hnotleaf : c.isLeaf = false := by
                by_contra hleaf
                have := hocc.eq_of_isLeaf (Bool.of_not_eq_false hleaf)
                rw [← this] at hleaf
                exact hleaf rfl
              simp only [Entry.parts, List.mem_cons, List.not_mem_nil, or_false] at hcx
              rcases hcx with rfl | rfl
              · -- a key is a leaf
                have hkey := (keyName_eq_ok_iff_of_desugar hxx'.key).1 hname
                rcases Expr.keyName_eq_ok_iff.1 hkey with hk | hk <;>
                  rw [hk] at hnotleaf <;> cases hnotleaf
              · have hleaf : x'.value.isLeaf = false := by
                  by_contra hleaf
                  have := eq_of_desugar_of_isLeaf hxx'.value (Bool.of_not_eq_false hleaf)
                  rw [← this] at hleaf
                  exact hleaf hnotleaf
                have := ih hxx'.value
                have := depth_le_of_quoteValue hvalue hleaf
                have hpair := Datum.depth_add_le_ofList hd []
                rw [Datum.depth_toJson_pair] at hpair
                rw [depth_toJson_lookupCall]
                simp only [List.length_nil, List.nil_append] at hpair
                omega
          | _ => cases hd

end LowerBound

/-! ## Numbers stay finite -/

/-- The atom is not a number beyond the finite ones. -/
def Datum.IsFinite (a : Datum) : Prop :=
  ∀ x, a = .number x → isFinite x = true

theorem Datum.mem_numbers_iff {d : Datum} {x : Float} : x ∈ d.numbers ↔ .number x ∈ d.atoms := by
  induction d with
  | pair h t ihh iht => simp only [numbers, atoms, List.mem_append, ihh, iht]
  | number y => simp [numbers, atoms]
  | symbol | bool | str | empty => simp [numbers, atoms]

theorem Expr.mem_ownNumbers_iff {e : Expr} {x : Float} :
    x ∈ e.ownNumbers ↔ .number x ∈ e.ownAtoms := by
  cases e with
  | literal d => exact Datum.mem_numbers_iff
  | _ => simp [ownNumbers, ownAtoms]

/-- Whether all numbers are finite is a question about the atoms. -/
theorem Expr.allFinite_iff_allAtoms {e : Expr} : e.AllFinite ↔ e.AllAtoms Datum.IsFinite := by
  refine forall_congr' fun c => forall_congr' fun _ => ⟨?_, fun h x hx => ?_⟩
  · rintro h _ ha x rfl
    exact h x (mem_ownNumbers_iff.2 ha)
  · exact h _ (mem_ownNumbers_iff.1 hx) x rfl

/-- **Desugaring makes no numbers**: if all are finite, all are finite afterwards. -/
theorem allFinite_of_desugar {policy : ValuePolicy} {e e' : Expr} (h : e.desugar policy = .ok e')
    (he : e.AllFinite) : e'.AllFinite := by
  have hadded : ∀ name ∈ addedNames, (Datum.symbol name).IsFinite := by
    rintro name _ x ⟨⟩
  rw [Expr.allFinite_iff_allAtoms] at he ⊢
  exact allAtoms_of_desugar hadded h he

/-! ## How much deeper the literal policy makes an expression -/

section UpperBound

/-- All dictionary literals in the expression have at most `k` entries. -/
def Expr.DictsWithin (k : Nat) (e : Expr) : Prop :=
  ∀ entries, (Expr.dict entries).Occurs e → entries.length ≤ k

theorem Expr.DictsWithin.of_mem_parts {k : Nat} {c e : Expr} (h : e.DictsWithin k)
    (hc : c ∈ e.parts) : c.DictsWithin k :=
  fun entries hocc => h entries (.inside hc hocc)

/-- A constant fits as data where it fits as an expression. -/
theorem Expr.Fits.encode {e : Expr} {n : Nat} (h : e.Fits n) {d : Datum} (hd : e.encode = .ok d) :
    d.Fits n := by
  have hdepth := h.depth_le
  have hown := (Expr.allFinite_iff.1 h.allFinite).1
  cases e with
  | number _ | bool _ | str _ =>
      cases hd
      exact ⟨by simpa [Expr.toJson, Datum.toJson] using hdepth, hown⟩
  | literal d' =>
      cases hd
      simp only [Expr.toJson, Json.depth_tagged] at hdepth
      exact ⟨by omega, hown⟩
  | var | prim | cond | lambda | app | letIn | dict => cases hd

theorem Expr.Fits.mono {e : Expr} {n m : Nat} (h : e.Fits n) (hle : n ≤ m) : e.Fits m :=
  ⟨h.depth_le.trans hle, h.allFinite⟩

/-- A construct gets deeper by as much as its parts. -/
theorem Expr.Congruent.fits {R : Expr → Expr → Prop} {e e' : Expr} (h : e.Congruent R e') {j : Nat}
    (hR : ∀ c ∈ e.parts, ∀ c', R c c' → ∀ n, c.Fits n → c'.Fits (n + j)) {n : Nat}
    (hfits : e.Fits n) : e'.Fits (n + j) := by
  cases h with
  | leaf => exact hfits.mono (Nat.le_add_right n j)
  | cond ht hy hn =>
      obtain ⟨m, rfl⟩ : ∃ m, n = m + 2 := hfits.exists_eq_add (by simp [Expr.depth_toJson_cond])
      obtain ⟨hft, hfy, hfn⟩ := Expr.fits_cond.1 hfits
      rw [Nat.add_right_comm]
      exact Expr.fits_cond.2 ⟨hR _ (by simp [Expr.parts]) _ ht m hft,
        hR _ (by simp [Expr.parts]) _ hy m hfy, hR _ (by simp [Expr.parts]) _ hn m hfn⟩
  | lambda params hb =>
      obtain ⟨m, rfl⟩ : ∃ m, n = m + 3 := hfits.exists_eq_add (by simp [Expr.depth_toJson_lambda])
      rw [Nat.add_right_comm]
      refine Expr.fits_lambda.2 fun c' hc' => ?_
      obtain ⟨c, hc, hcc'⟩ := exists_mem_left_of_forall₂ hb hc'
      exact hR c hc c' hcc' m (Expr.fits_lambda.1 hfits c hc)
  | app hf ha =>
      obtain ⟨m, rfl⟩ : ∃ m, n = m + 3 := hfits.exists_eq_add (by simp [Expr.depth_toJson_app])
      obtain ⟨hff, hfa⟩ := Expr.fits_app.1 hfits
      rw [Nat.add_right_comm]
      refine Expr.fits_app.2 ⟨?_, fun c' hc' => ?_⟩
      · rw [Nat.add_right_comm]
        exact hR _ (by simp [Expr.parts]) _ hf (m + 1) hff
      · obtain ⟨c, hc, hcc'⟩ := exists_mem_left_of_forall₂ ha hc'
        exact hR c (by simp [Expr.parts, hc]) c' hcc' m (hfa c hc)
  | letIn hd hb =>
      obtain ⟨m, rfl⟩ : ∃ m, n = m + 3 := hfits.exists_eq_add (by simp [Expr.depth_toJson_letIn])
      obtain ⟨hfd, hfb⟩ := Expr.fits_letIn.1 hfits
      rw [Nat.add_right_comm]
      refine Expr.fits_letIn.2 ⟨fun b' hb' => ?_, fun c' hc' => ?_⟩
      · obtain ⟨b, hmem, hbb'⟩ := exists_mem_left_of_forall₂ hd hb'
        obtain ⟨l, rfl, hl⟩ := hfd b hmem
        refine ⟨l + j, by omega, hR _ ?_ _ hbb'.value l hl⟩
        exact List.mem_append_left _ (List.mem_map_of_mem hmem)
      · obtain ⟨c, hc, hcc'⟩ := exists_mem_left_of_forall₂ hb hc'
        exact hR c (List.mem_append_right _ hc) c' hcc' m (hfb c hc)

/-- **Under the literal policy an expression gets at most `2 * k + 2` levels deeper** if its
dictionaries have at most `k` entries. -/
theorem fits_of_desugar_literal {k : Nat} {e e' : Expr} (h : e.desugar .literal = .ok e')
    (hk : e.DictsWithin k) {n : Nat} (hfits : e.Fits n) : e'.Fits (n + (2 * k + 2)) := by
  induction e using Expr.parts_induction generalizing e' n with
  | step e ih =>
      cases hd : e.isDict with
      | false =>
          refine ((desugar_eq_ok_iff_congruent hd).1 h).fits (fun c hc c' hcc' m hm => ?_) hfits
          exact ih c hc hcc' (hk.of_mem_parts hc) hm
      | true =>
          cases e with
          | dict entries =>
              obtain ⟨m, rfl⟩ : ∃ m, n = m + 3 :=
                hfits.exists_eq_add (by simp [Expr.depth_toJson_dict])
              refine ⟨?_, allFinite_of_desugar h hfits.allFinite⟩
              obtain ⟨entries', hentries, hcall⟩ := desugar_dict_eq_ok_iff.1 h
              obtain ⟨ds, hds, rfl⟩ := lookupCall_eq_ok_iff.1 hcall
              have hpairs := (toData_inOrder .literal).eq_ok_iff.1 hds
              have hlength : ds.length = entries.length :=
                hpairs.length_eq.symm.trans hentries.length_eq.symm
              have hcount := hk entries .here
              have hlist : (Datum.ofList ds).toJson.depth ≤ (m + 1) + 2 * ds.length := by
                refine Datum.depth_ofList_le fun d hmem => ?_
                obtain ⟨x', hx', hxd⟩ := exists_mem_left_of_forall₂ hpairs hmem
                obtain ⟨x, hx, hxx'⟩ := exists_mem_left_of_forall₂ hentries hx'
                obtain ⟨name, value, _, hvalue, rfl⟩ := Entry.toDatum_eq_ok_iff.1 hxd
                obtain ⟨l, rfl, _, hfitsvalue⟩ := Expr.fits_dict.1 hfits x hx
                have hencode := (encode_eq_ok_iff_of_desugar hxx'.value).1 hvalue
                have := (hfitsvalue.encode hencode).depth_le
                have := Expr.one_le_depth x.value
                have := hfitsvalue.depth_le
                have hsymbol : (Datum.symbol name).toJson.depth = 1 := by simp [Datum.toJson]
                rw [Datum.depth_toJson_pair]
                omega
              rw [depth_toJson_lookupCall]
              omega
          | _ => cases hd

end UpperBound

/-! ## Programs -/

namespace Program

variable {policy : ValuePolicy} {p q : Program}

/-- The definition in front nests twenty levels deep. -/
theorem lookupDefinition_fits : lookupDefinition.Fits 20 := by
  have hread : Form.ofJsonWithin? 20 lookupDefinition.toJson = some lookupDefinition := rfl
  exact Form.fits_of_ofJsonWithin? hread

theorem allFinite_of_desugar (h : p.desugar policy = .ok q) (hp : p.AllFinite) : q.AllFinite := by
  intro f' hf'
  rcases mem_forms_of_desugar h hf' with rfl | ⟨f, hf, hff'⟩
  · exact lookupDefinition_fits.allFinite
  · exact L32.allFinite_of_desugar hff'.expression (hp f hf)

/-- A desugared program fits if the definition in front and the desugared forms do. -/
theorem fits_of_desugar (h : p.desugar policy = .ok q) {n : Nat} (hn : 20 ≤ n)
    (hforms : ∀ f ∈ p.forms, ∀ f', f.Related (Expr.Desugars policy) f' → f'.Fits n) :
    q.Fits (n + 2) := by
  refine fits_iff.2 fun f' hf' => ?_
  rcases mem_forms_of_desugar h hf' with rfl | ⟨f, hf, hff'⟩
  · exact ⟨lookupDefinition_fits.depth_le.trans hn, lookupDefinition_fits.allFinite⟩
  · exact hforms f hf f' hff'

/-- Without a dictionary literal nothing gets deeper than the definition in front. -/
theorem fits_of_desugar_of_hasDict_eq_false (h : p.desugar policy = .ok q)
    (hdict : p.hasDict = false) {n : Nat} (hn : 20 ≤ n) (hp : p.Fits (n + 2)) : q.Fits (n + 2) := by
  refine fits_of_desugar h hn fun f hf f' hff' => ?_
  have hself := (Form.desugar_eq_self_iff policy f).2 ((hasDict_eq_false_iff p).1 hdict f hf)
  rw [Form.desugar_eq_ok_iff.2 hff', Except.ok.injEq] at hself
  rw [hself]
  exact fits_iff.1 hp f hf

/-- Under the literal policy a program whose dictionaries have at most `k` entries gets at most
`2 * k + 2` levels deeper. -/
theorem fits_of_desugar_literal (h : p.desugar .literal = .ok q) {k : Nat}
    (hk : ∀ f ∈ p.forms, f.expression.DictsWithin k) {n : Nat} (hp : p.Fits (n + 2))
    (hn : 20 ≤ n + (2 * k + 2)) : q.Fits (n + (2 * k + 2) + 2) := by
  refine fits_of_desugar h hn fun f hf f' hff' => ?_
  have hfits := fits_iff.1 hp f hf
  have hdepth := hfits.depth_le
  cases hff' with
  | define name he =>
      rw [Form.depth_toJson_define] at hdepth
      obtain ⟨m, rfl⟩ : ∃ m, n = m + 2 := ⟨n - 2, by omega⟩
      rw [Nat.add_right_comm]
      exact Form.fits_define.2 (L32.fits_of_desugar_literal he (hk _ hf) (Form.fits_define.1 hfits))
  | expr he =>
      rw [Form.depth_toJson_expr] at hdepth
      obtain ⟨m, rfl⟩ : ∃ m, n = m + 1 := ⟨n - 1, by omega⟩
      rw [Nat.add_right_comm]
      exact Form.fits_expr.2 (L32.fits_of_desugar_literal he (hk _ hf) (Form.fits_expr.1 hfits))

/-- **A dictionary with `n` entries makes the program nest `2 * n + 10` levels deep**, or deeper. -/
theorem le_depth_of_occurs (h : p.desugar policy = .ok q) {f : Form} (hf : f ∈ p.forms)
    {entries : List (Entry Expr)} (hne : entries ≠ [])
    (hocc : (Expr.dict entries).Occurs f.expression) :
    2 * entries.length + 10 ≤ q.toJson.depth := by
  obtain ⟨q', hq', rfl⟩ := desugar_eq_ok_iff.1 h
  obtain ⟨f', hf', hff'⟩ := exists_mem_left_of_forall₂ (desugarForms_eq_ok_iff.1 hq').flip hf
  have hdepth : f'.expression.toJson.depth + 1 ≤ f'.toJson.depth := by
    cases f' with
    | define name value =>
        rw [Form.depth_toJson_define]
        exact Nat.le_succ _
    | expr value => rw [Form.depth_toJson_expr]; rfl
  have hexpr := L32.le_depth_of_occurs hne (Form.desugar_eq_ok_iff.1 hff').expression hocc
  have hmem : f'.toJson ∈ (lookupDefinition :: q'.forms).map Form.toJson :=
    List.mem_map_of_mem (List.mem_cons_of_mem _ hf')
  have := Json.depthOfItems_le_iff.1 (le_refl _) _ hmem
  rw [depth_toJson]
  show _ ≤ Json.depthOfItems ((lookupDefinition :: q'.forms).map Form.toJson) + 2
  omega

end Program

end L32
