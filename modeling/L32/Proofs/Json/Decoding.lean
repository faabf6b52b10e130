import L32.Proofs.Json.Nesting

set_option autoImplicit false

/-! # Reading expressions

The three statements about reading data, for expressions: what is read fits
(`fits_of_ofJsonWithin?`), what fits is read back (`ofJsonWithin?_toJson`), and one more level
changes nothing (`ofJsonWithin?_succ`). `Expr.Decodes` is the inversion, with one rule for each
construct, and for each construct one lemma says when it fits in terms of its parts. -/

namespace L32

/-! ## Expressions -/

namespace Expr

/-- The numbers that stand in an expression itself, and not in its parts. -/
def ownNumbers : Expr → List Float
  | .number x => [x]
  | .literal d => d.numbers
  | _ => []

def AllFinite (e : Expr) : Prop :=
  ∀ c : Expr, c.Occurs e → ∀ x ∈ c.ownNumbers, isFinite x = true

theorem allFinite_iff {e : Expr} :
    e.AllFinite ↔ (∀ x ∈ e.ownNumbers, isFinite x = true) ∧ ∀ c ∈ e.parts, c.AllFinite :=
  forall_occurs_iff

structure Fits (e : Expr) (n : Nat) : Prop where
  depth_le : e.toJson.depth ≤ n
  allFinite : e.AllFinite

/-- From which JSON values an expression is read, in terms of its parts. -/
inductive Decodes : Nat → Json → Expr → Prop
  | number (n : Nat) {numeral : Numeral} {x : Float} (h : numeral.toFloat? = some x) :
      Decodes (n + 1) (.tagged "Number" (.number numeral)) (.number x)
  | bool (n : Nat) (b : Bool) : Decodes (n + 1) (.tagged "Bool" (.bool b)) (.bool b)
  | str (n : Nat) (s : String) : Decodes (n + 1) (.tagged "Str" (.ofString s)) (.str s)
  | var (n : Nat) (s : String) : Decodes (n + 1) (.tagged "Var" (.ofString s)) (.var s)
  | prim (n : Nat) (s : String) : Decodes (n + 1) (.tagged "PrimOp" (.ofString s)) (.prim s)
  | literal {n : Nat} {v : Json} {d : Datum} (h : Datum.ofJsonWithin? n v = some d) :
      Decodes (n + 1) (.tagged "Literal" v) (.literal d)
  | cond {n : Nat} {v v₁ v₂ v₃ : Json} {test yes no : Expr}
      (hv : v.fields? ["test", "then", "alt"] = some [v₁, v₂, v₃])
      (ht : ofJsonWithin? n v₁ = some test) (hy : ofJsonWithin? n v₂ = some yes)
      (hn : ofJsonWithin? n v₃ = some no) : Decodes (n + 2) (.tagged "If" v) (.cond test yes no)
  | lambda {n : Nat} {v v₁ v₂ : Json} {params : List String} {body : List Expr}
      (hv : v.fields? ["params", "body"] = some [v₁, v₂]) (hp : v₁.strings? = some params)
      (hb : allOfJsonWithin? (n + 1) v₂ = some body) :
      Decodes (n + 3) (.tagged "Proc" v) (.lambda params body)
  | app {n : Nat} {v v₁ v₂ : Json} {operator : Expr} {operands : List Expr}
      (hv : v.fields? ["rator", "rands"] = some [v₁, v₂]) (hf : ofJsonWithin? n v₁ = some operator)
      (ha : allOfJsonWithin? n v₂ = some operands) :
      Decodes (n + 2) (.tagged "App" v) (.app operator operands)
  | letIn {n : Nat} {v v₁ v₂ : Json} {bindings : List (Binding Expr)} {body : List Expr}
      (hv : v.fields? ["bindings", "body"] = some [v₁, v₂])
      (hd : bindingsOfJsonWithin? n v₁ = some bindings)
      (hb : allOfJsonWithin? n v₂ = some body) :
      Decodes (n + 2) (.tagged "Let" v) (.letIn bindings body)
  | dict {n : Nat} {v v₁ : Json} {entries : List (Entry Expr)}
      (hv : v.fields? ["entries"] = some [v₁]) (he : entriesOfJsonWithin? n v₁ = some entries) :
      Decodes (n + 2) (.tagged "Dict" v) (.dict entries)

open Json in
theorem ofJsonWithin?_eq_some_iff {n : Nat} {v : Json} {e : Expr} :
    ofJsonWithin? n v = some e ↔ Decodes n v e := by
  constructor
  · intro h
    rw [ofJsonWithin?.eq_def] at h
    split at h
    · split at h
      · obtain ⟨x, hx, rfl⟩ := Option.map_eq_some_iff.1 h
        obtain ⟨numeral, rfl, hx⟩ := float?_eq_some hx
        exact .number _ hx
      · obtain ⟨b, hb, rfl⟩ := Option.map_eq_some_iff.1 h
        rw [bool?_eq_some hb]
        exact .bool _ b
      · obtain ⟨s, hs, rfl⟩ := Option.map_eq_some_iff.1 h
        rw [string?_eq_some hs]
        exact .str _ s
      · obtain ⟨s, hs, rfl⟩ := Option.map_eq_some_iff.1 h
        rw [string?_eq_some hs]
        exact .var _ s
      · obtain ⟨s, hs, rfl⟩ := Option.map_eq_some_iff.1 h
        rw [string?_eq_some hs]
        exact .prim _ s
      · obtain ⟨d, hd, rfl⟩ := Option.map_eq_some_iff.1 h
        exact .literal hd
      -- the constructs with fields: enough levels, all fields, and their contents
      · split at h
        · rename_i hv
          simp only [Option.bind_eq_bind, Option.bind_eq_some_iff, Option.some.injEq] at h
          obtain ⟨_, ht, _, hy, _, hn, rfl⟩ := h
          exact .cond hv ht hy hn
        · cases h
      · split at h
        · rename_i hv
          simp only [Option.bind_eq_bind, Option.bind_eq_some_iff, Option.some.injEq] at h
          obtain ⟨_, hp, _, hb, rfl⟩ := h
          exact .lambda hv hp hb
        · cases h
      · split at h
        · rename_i hv
          simp only [Option.bind_eq_bind, Option.bind_eq_some_iff, Option.some.injEq] at h
          obtain ⟨_, hf, _, ha, rfl⟩ := h
          exact .app hv hf ha
        · cases h
      · split at h
        · rename_i hv
          simp only [Option.bind_eq_bind, Option.bind_eq_some_iff, Option.some.injEq] at h
          obtain ⟨_, hd, _, hb, rfl⟩ := h
          exact .letIn hv hd hb
        · cases h
      · split at h
        · rename_i hv
          simp only [Option.bind_eq_bind, Option.bind_eq_some_iff, Option.some.injEq] at h
          obtain ⟨_, he, rfl⟩ := h
          exact .dict hv he
        · cases h
      · cases h
    · cases h
  · intro h
    rw [ofJsonWithin?.eq_def]
    cases h with
    | bool | str | var | prim => rfl
    | number _ hx => simp [tagged, float?, hx]
    | literal hd => simp [tagged, hd]
    | cond hv ht hy hn => simp [tagged, hv, ht, hy, hn]
    | lambda hv hp hb => simp [tagged, hv, hp, hb]
    | app hv hf ha => simp [tagged, hv, hf, ha]
    | letIn hv hd hb => simp [tagged, hv, hd, hb]
    | dict hv he => simp [tagged, hv, he]

/-! ### Lists of expressions, bindings and entries -/

theorem allOfJsonWithin?_readsArray : Json.ReadsArray ofJsonWithin? allOfJsonWithin? where
  array n items := by rw [allOfJsonWithin?]
  exists_array h := by
    rw [allOfJsonWithin?.eq_def] at h
    split at h
    · exact ⟨_, _, rfl, rfl⟩
    · cases h

theorem bindingOfJsonWithin?_eq_some_iff {n : Nat} {v : Json} {b : Binding Expr} :
    bindingOfJsonWithin? n v = some b ↔ ∃ m v₁ v₂, n = m + 1
      ∧ v.fields? ["name", "value"] = some [v₁, v₂] ∧ v₁.string? = some b.name
      ∧ ofJsonWithin? m v₂ = some b.value := by
  constructor
  · intro h
    rw [bindingOfJsonWithin?.eq_def] at h
    split at h
    · split at h
      · rename_i hv
        simp only [Option.bind_eq_bind, Option.bind_eq_some_iff, Option.some.injEq] at h
        obtain ⟨_, hname, _, hvalue, rfl⟩ := h
        exact ⟨_, _, _, rfl, hv, hname, hvalue⟩
      · cases h
    · cases h
  · rintro ⟨m, v₁, v₂, rfl, hv, hname, hvalue⟩
    simp [bindingOfJsonWithin?, hv, hname, hvalue]

theorem bindingsOfJsonWithin?_readsArray :
    Json.ReadsArray bindingOfJsonWithin? bindingsOfJsonWithin? where
  array n items := by rw [bindingsOfJsonWithin?]
  exists_array h := by
    rw [bindingsOfJsonWithin?.eq_def] at h
    split at h
    · exact ⟨_, _, rfl, rfl⟩
    · cases h

theorem entryOfJsonWithin?_eq_some_iff {n : Nat} {v : Json} {x : Entry Expr} :
    entryOfJsonWithin? n v = some x ↔ ∃ m v₁ v₂, n = m + 1
      ∧ v.fields? ["key", "value"] = some [v₁, v₂] ∧ ofJsonWithin? m v₁ = some x.key
      ∧ ofJsonWithin? m v₂ = some x.value := by
  constructor
  · intro h
    rw [entryOfJsonWithin?.eq_def] at h
    split at h
    · split at h
      · rename_i hv
        simp only [Option.bind_eq_bind, Option.bind_eq_some_iff, Option.some.injEq] at h
        obtain ⟨_, hkey, _, hvalue, rfl⟩ := h
        exact ⟨_, _, _, rfl, hv, hkey, hvalue⟩
      · cases h
    · cases h
  · rintro ⟨m, v₁, v₂, rfl, hv, hkey, hvalue⟩
    simp [entryOfJsonWithin?, hv, hkey, hvalue]

theorem entriesOfJsonWithin?_readsArray :
    Json.ReadsArray entryOfJsonWithin? entriesOfJsonWithin? where
  array n items := by rw [entriesOfJsonWithin?]
  exists_array h := by
    rw [entriesOfJsonWithin?.eq_def] at h
    split at h
    · exact ⟨_, _, rfl, rfl⟩
    · cases h

theorem toJsons_eq_map (es : List Expr) : toJsons es = es.map toJson := by
  induction es with
  | nil => rfl
  | cons e es ih => simp [toJsons, ih]

def bindingToJson (b : Binding Expr) : Json :=
  .record [("name", .ofString b.name), ("value", b.value.toJson)]

def entryToJson (x : Entry Expr) : Json :=
  .record [("key", x.key.toJson), ("value", x.value.toJson)]

theorem bindingsToJson_eq_map (bs : List (Binding Expr)) :
    bindingsToJson bs = bs.map bindingToJson := by
  induction bs with
  | nil => rfl
  | cons b bs ih => simp [bindingsToJson, bindingToJson, ih]

theorem entriesToJson_eq_map (xs : List (Entry Expr)) :
    entriesToJson xs = xs.map entryToJson := by
  induction xs with
  | nil => rfl
  | cons x xs ih => simp [entriesToJson, entryToJson, ih]

/-! ### Which constructs fit -/

/-- For a construct without numbers of its own, the parts decide. -/
theorem allFinite_iff_parts {e : Expr} (h : e.ownNumbers = []) :
    e.AllFinite ↔ ∀ c ∈ e.parts, c.AllFinite := by
  rw [allFinite_iff, h]
  simp

theorem fits_leaf {e : Expr} {n : Nat} (hparts : e.parts = []) (hnumbers : e.ownNumbers = [])
    (hdepth : e.toJson.depth ≤ n) : e.Fits n := by
  refine ⟨hdepth, (allFinite_iff_parts hnumbers).2 ?_⟩
  rw [hparts]
  simp

theorem Fits.exists_eq_add {e : Expr} {n k : Nat} (h : e.Fits n) (hk : k ≤ e.toJson.depth) :
    ∃ m, n = m + k :=
  ⟨n - k, by have := h.depth_le; omega⟩

theorem fits_number {x : Float} {n : Nat} : (Expr.number x).Fits (n + 1) ↔ isFinite x = true := by
  constructor
  · intro h
    exact h.allFinite _ .here x (by simp [ownNumbers])
  · intro h
    refine ⟨by simp [toJson], allFinite_iff.2 ⟨?_, by simp [parts]⟩⟩
    intro y hy
    simp only [ownNumbers, List.mem_singleton] at hy
    rwa [hy]

theorem fits_literal {d : Datum} {n : Nat} : (Expr.literal d).Fits (n + 1) ↔ d.Fits n := by
  constructor
  · intro h
    refine ⟨?_, h.allFinite _ .here⟩
    have := h.depth_le
    simpa [toJson] using this
  · intro h
    refine ⟨?_, allFinite_iff.2 ⟨h.allFinite, by simp [parts]⟩⟩
    simpa [toJson] using h.depth_le

theorem depth_toJson_cond (test yes no : Expr) : (Expr.cond test yes no).toJson.depth
    = max test.toJson.depth (max yes.toJson.depth no.toJson.depth) + 2 := by
  simp [toJson, Json.depth_record, Json.depthOfItems]

theorem fits_cond {test yes no : Expr} {n : Nat} :
    (Expr.cond test yes no).Fits (n + 2) ↔ test.Fits n ∧ yes.Fits n ∧ no.Fits n := by
  have hfinite : (Expr.cond test yes no).AllFinite
      ↔ test.AllFinite ∧ yes.AllFinite ∧ no.AllFinite := by
    rw [allFinite_iff_parts rfl]
    simp [parts]
  constructor
  · rintro ⟨hdepth, hall⟩
    rw [depth_toJson_cond] at hdepth
    obtain ⟨ht, hy, hn⟩ := hfinite.1 hall
    exact ⟨⟨by omega, ht⟩, ⟨by omega, hy⟩, ⟨by omega, hn⟩⟩
  · rintro ⟨⟨hdt, ht⟩, ⟨hdy, hy⟩, ⟨hdn, hn⟩⟩
    refine ⟨?_, hfinite.2 ⟨ht, hy, hn⟩⟩
    rw [depth_toJson_cond]
    omega

theorem depthOfItems_toJsons_le {es : List Expr} {n : Nat} :
    Json.depthOfItems (toJsons es) ≤ n ↔ ∀ e ∈ es, e.toJson.depth ≤ n := by
  rw [toJsons_eq_map, Json.depthOfItems_le_iff]
  simp

theorem depthOfItems_ofString (ss : List String) :
    Json.depthOfItems (ss.map Json.ofString) = 0 := by
  rw [← Nat.le_zero, Json.depthOfItems_le_iff]
  simp

theorem depth_toJson_lambda (params : List String) (body : List Expr) :
    (Expr.lambda params body).toJson.depth = Json.depthOfItems (toJsons body) + 3 := by
  simp [toJson, Json.depth_record, Json.depthOfItems, Json.depth, depthOfItems_ofString]

theorem fits_lambda {params : List String} {body : List Expr} {n : Nat} :
    (Expr.lambda params body).Fits (n + 3) ↔ ∀ e ∈ body, e.Fits n := by
  constructor
  · rintro ⟨hdepth, hall⟩ e he
    rw [depth_toJson_lambda] at hdepth
    rw [allFinite_iff_parts rfl] at hall
    exact ⟨depthOfItems_toJsons_le.1 (by omega) e he, hall e he⟩
  · intro h
    refine ⟨?_, (allFinite_iff_parts rfl).2 fun e he => (h e he).allFinite⟩
    rw [depth_toJson_lambda]
    have := depthOfItems_toJsons_le.2 fun e he => (h e he).depth_le
    omega

theorem depth_toJson_app (operator : Expr) (operands : List Expr) :
    (Expr.app operator operands).toJson.depth
      = max operator.toJson.depth (Json.depthOfItems (toJsons operands) + 1) + 2 := by
  simp [toJson, Json.depth_record, Json.depthOfItems, Json.depth]

theorem fits_app {operator : Expr} {operands : List Expr} {n : Nat} :
    (Expr.app operator operands).Fits (n + 3)
      ↔ operator.Fits (n + 1) ∧ ∀ e ∈ operands, e.Fits n := by
  constructor
  · rintro ⟨hdepth, hall⟩
    rw [depth_toJson_app] at hdepth
    rw [allFinite_iff_parts rfl] at hall
    refine ⟨⟨by omega, hall _ (by simp [parts])⟩, fun e he => ⟨?_, hall _ (by simp [parts, he])⟩⟩
    exact depthOfItems_toJsons_le.1 (by omega) e he
  · rintro ⟨hf, hes⟩
    refine ⟨?_, (allFinite_iff_parts rfl).2 ?_⟩
    · rw [depth_toJson_app]
      have := hf.depth_le
      have := depthOfItems_toJsons_le.2 fun e he => (hes e he).depth_le
      omega
    · rintro c (_ | ⟨_, hc⟩)
      · exact hf.allFinite
      · exact (hes c hc).allFinite

theorem depth_bindingToJson (b : Binding Expr) :
    (bindingToJson b).depth = b.value.toJson.depth + 1 := by
  simp [bindingToJson, Json.depth_record, Json.depthOfItems]

theorem depthOfItems_bindingsToJson_le {bs : List (Binding Expr)} {n : Nat} :
    Json.depthOfItems (bindingsToJson bs) ≤ n ↔ ∀ b ∈ bs, b.value.toJson.depth + 1 ≤ n := by
  rw [bindingsToJson_eq_map, Json.depthOfItems_le_iff]
  simp [depth_bindingToJson]

theorem depth_toJson_letIn (bindings : List (Binding Expr)) (body : List Expr) :
    (Expr.letIn bindings body).toJson.depth
      = max (Json.depthOfItems (bindingsToJson bindings)) (Json.depthOfItems (toJsons body)) + 3 :=
    by
  simp [toJson, Json.depth_record, Json.depthOfItems, Json.depth]

theorem fits_letIn {bindings : List (Binding Expr)} {body : List Expr} {n : Nat} :
    (Expr.letIn bindings body).Fits (n + 3)
      ↔ (∀ b ∈ bindings, ∃ m, n = m + 1 ∧ b.value.Fits m) ∧ ∀ e ∈ body, e.Fits n := by
  constructor
  · rintro ⟨hdepth, hall⟩
    rw [depth_toJson_letIn] at hdepth
    rw [allFinite_iff_parts rfl] at hall
    constructor
    · intro b hb
      have hle := depthOfItems_bindingsToJson_le.1 (show _ ≤ n by omega) b hb
      refine ⟨n - 1, by omega, by omega, hall _ ?_⟩
      exact List.mem_append_left _ (List.mem_map_of_mem hb)
    · intro e he
      exact ⟨depthOfItems_toJsons_le.1 (by omega) e he, hall _ (List.mem_append_right _ he)⟩
  · rintro ⟨hbs, hes⟩
    refine ⟨?_, (allFinite_iff_parts rfl).2 ?_⟩
    · rw [depth_toJson_letIn]
      have := depthOfItems_toJsons_le.2 fun e he => (hes e he).depth_le
      have : Json.depthOfItems (bindingsToJson bindings) ≤ n := by
        rw [depthOfItems_bindingsToJson_le]
        intro b hb
        obtain ⟨m, rfl, hm⟩ := hbs b hb
        have := hm.depth_le
        omega
      omega
    · intro c hc
      rcases List.mem_append.1 hc with hc | hc
      · obtain ⟨b, hb, rfl⟩ := List.mem_map.1 hc
        obtain ⟨m, _, hm⟩ := hbs b hb
        exact hm.allFinite
      · exact (hes c hc).allFinite

theorem depth_entryToJson (x : Entry Expr) :
    (entryToJson x).depth = max x.key.toJson.depth x.value.toJson.depth + 1 := by
  simp [entryToJson, Json.depth_record, Json.depthOfItems]

theorem depthOfItems_entriesToJson_le {xs : List (Entry Expr)} {n : Nat} :
    Json.depthOfItems (entriesToJson xs) ≤ n
      ↔ ∀ x ∈ xs, max x.key.toJson.depth x.value.toJson.depth + 1 ≤ n := by
  rw [entriesToJson_eq_map, Json.depthOfItems_le_iff]
  simp [depth_entryToJson]

theorem depth_toJson_dict (entries : List (Entry Expr)) :
    (Expr.dict entries).toJson.depth = Json.depthOfItems (entriesToJson entries) + 3 := by
  simp [toJson, Json.depth_record, Json.depthOfItems, Json.depth]

theorem fits_dict {entries : List (Entry Expr)} {n : Nat} :
    (Expr.dict entries).Fits (n + 3)
      ↔ ∀ x ∈ entries, ∃ m, n = m + 1 ∧ x.key.Fits m ∧ x.value.Fits m := by
  have hmem : ∀ x ∈ entries, ∀ c ∈ x.parts, c ∈ (Expr.dict entries).parts := by
    intro x hx c hc
    exact List.mem_flatMap.2 ⟨x, hx, hc⟩
  constructor
  · rintro ⟨hdepth, hall⟩ x hx
    rw [depth_toJson_dict] at hdepth
    rw [allFinite_iff_parts rfl] at hall
    have hle := depthOfItems_entriesToJson_le.1 (show _ ≤ n by omega) x hx
    refine ⟨n - 1, by omega, ⟨by omega, hall _ (hmem x hx _ ?_)⟩,
      ⟨by omega, hall _ (hmem x hx _ ?_)⟩⟩
    · simp [Entry.parts]
    · simp [Entry.parts]
  · intro h
    refine ⟨?_, (allFinite_iff_parts rfl).2 ?_⟩
    · rw [depth_toJson_dict]
      have : Json.depthOfItems (entriesToJson entries) ≤ n := by
        rw [depthOfItems_entriesToJson_le]
        intro x hx
        obtain ⟨m, rfl, hk, hv⟩ := h x hx
        have := hk.depth_le
        have := hv.depth_le
        omega
      omega
    · intro c hc
      obtain ⟨x, hx, hc⟩ := List.mem_flatMap.1 hc
      obtain ⟨m, _, hk, hv⟩ := h x hx
      simp only [Entry.parts, List.mem_cons, List.not_mem_nil, or_false] at hc
      rcases hc with rfl | rfl
      · exact hk.allFinite
      · exact hv.allFinite

/-! ### Reading, and reading back -/

/-- **An expression that is read fits** into the levels it was read with. -/
theorem fits_of_ofJsonWithin? {e : Expr} {n : Nat} {v : Json} (h : ofJsonWithin? n v = some e) :
    e.Fits n := by
  induction e using Expr.induction generalizing n v with
  | leaf e he =>
      cases ofJsonWithin?_eq_some_iff.1 h with
      | number _ hx => exact fits_number.2 (Numeral.isFinite_of_toFloat? hx)
      | bool | str | var | prim =>
          exact fits_leaf rfl rfl (by simp [toJson, Json.depth])
      | literal hd => exact fits_literal.2 (Datum.fits_of_ofJsonWithin? hd)
      | cond | lambda | app | letIn | dict => cases he
  | cond test yes no iht ihy ihn =>
      cases ofJsonWithin?_eq_some_iff.1 h with
      | cond _ ht hy hn => exact fits_cond.2 ⟨iht ht, ihy hy, ihn hn⟩
  | lambda params body ih =>
      cases ofJsonWithin?_eq_some_iff.1 h with
      | lambda _ _ hb =>
          obtain ⟨m, hm, hall⟩ := allOfJsonWithin?_readsArray.exists_of_eq_some hb
          cases hm
          refine fits_lambda.2 fun e he => ?_
          obtain ⟨w, hw⟩ := hall e he
          exact ih e he hw
  | app operator operands ihf ih =>
      cases ofJsonWithin?_eq_some_iff.1 h with
      | app _ hf ha =>
          obtain ⟨m, rfl, hall⟩ := allOfJsonWithin?_readsArray.exists_of_eq_some ha
          refine fits_app.2 ⟨ihf hf, fun e he => ?_⟩
          obtain ⟨w, hw⟩ := hall e he
          exact ih e he hw
  | letIn bindings body ihd ih =>
      cases ofJsonWithin?_eq_some_iff.1 h with
      | letIn _ hd hb =>
          obtain ⟨m, rfl, hbindings⟩ := bindingsOfJsonWithin?_readsArray.exists_of_eq_some hd
          obtain ⟨m', hm', hall⟩ := allOfJsonWithin?_readsArray.exists_of_eq_some hb
          cases hm'
          refine fits_letIn.2 ⟨fun b hmem => ?_, fun e he => ?_⟩
          · obtain ⟨w, hw⟩ := hbindings b hmem
            obtain ⟨k, _, _, rfl, _, _, hvalue⟩ := bindingOfJsonWithin?_eq_some_iff.1 hw
            exact ⟨k, rfl, ihd b hmem hvalue⟩
          · obtain ⟨w, hw⟩ := hall e he
            exact ih e he hw
  | dict entries ih =>
      cases ofJsonWithin?_eq_some_iff.1 h with
      | dict _ he =>
          obtain ⟨m, rfl, hentries⟩ := entriesOfJsonWithin?_readsArray.exists_of_eq_some he
          refine fits_dict.2 fun x hx => ?_
          obtain ⟨w, hw⟩ := hentries x hx
          obtain ⟨k, _, _, rfl, _, hkey, hvalue⟩ := entryOfJsonWithin?_eq_some_iff.1 hw
          exact ⟨k, rfl, (ih x hx).1 hkey, (ih x hx).2 hvalue⟩

theorem bindingOfJsonWithin?_bindingToJson {b : Binding Expr} {n : Nat}
    (h : ofJsonWithin? n b.value.toJson = some b.value) :
    bindingOfJsonWithin? (n + 1) (bindingToJson b) = some b :=
  bindingOfJsonWithin?_eq_some_iff.2
    ⟨n, .ofString b.name, b.value.toJson, rfl, Json.fields?_record (by simp), rfl, h⟩

theorem entryOfJsonWithin?_entryToJson {x : Entry Expr} {n : Nat}
    (hk : ofJsonWithin? n x.key.toJson = some x.key)
    (hv : ofJsonWithin? n x.value.toJson = some x.value) :
    entryOfJsonWithin? (n + 1) (entryToJson x) = some x :=
  entryOfJsonWithin?_eq_some_iff.2
    ⟨n, x.key.toJson, x.value.toJson, rfl, Json.fields?_record (by simp), hk, hv⟩

/-- **An expression that fits is read back** from its JSON form. -/
theorem ofJsonWithin?_toJson {e : Expr} {n : Nat} (h : e.Fits n) :
    ofJsonWithin? n e.toJson = some e := by
  induction e using Expr.induction generalizing n with
  | leaf e he =>
      obtain ⟨m, rfl⟩ : ∃ m, n = m + 1 := h.exists_eq_add (by cases e <;> simp_all [toJson, isLeaf])
      rw [ofJsonWithin?_eq_some_iff]
      cases e with
      | number x =>
          obtain ⟨numeral, hof, hto⟩ := Numeral.exists_ofFloat?_of_isFinite (fits_number.1 h)
          rw [toJson, Json.ofFloat_of_ofFloat? hof]
          exact .number m hto
      | bool b => exact .bool m b
      | str s => exact .str m s
      | var s => exact .var m s
      | prim s => exact .prim m s
      | literal d => exact .literal (Datum.ofJsonWithin?_toJson (fits_literal.1 h))
      | cond | lambda | app | letIn | dict => cases he
  | cond test yes no iht ihy ihn =>
      obtain ⟨m, rfl⟩ : ∃ m, n = m + 2 := h.exists_eq_add (by simp [depth_toJson_cond])
      obtain ⟨ht, hy, hn⟩ := fits_cond.1 h
      exact ofJsonWithin?_eq_some_iff.2
        (.cond (Json.fields?_record (by simp)) (iht ht) (ihy hy) (ihn hn))
  | lambda params body ih =>
      obtain ⟨m, rfl⟩ : ∃ m, n = m + 3 := h.exists_eq_add (by simp [depth_toJson_lambda])
      have hbody := fits_lambda.1 h
      have hb := allOfJsonWithin?_readsArray.map_toJson fun e he => ih e he (hbody e he)
      rw [← toJsons_eq_map] at hb
      exact ofJsonWithin?_eq_some_iff.2
        (.lambda (Json.fields?_record (by simp)) (Json.strings?_array_ofString params) hb)
  | app operator operands ihf ih =>
      obtain ⟨m, rfl⟩ : ∃ m, n = m + 3 :=
        h.exists_eq_add (by simp [depth_toJson_app])
      obtain ⟨hf, hoperands⟩ := fits_app.1 h
      have ha := allOfJsonWithin?_readsArray.map_toJson fun e he => ih e he (hoperands e he)
      rw [← toJsons_eq_map] at ha
      exact ofJsonWithin?_eq_some_iff.2 (.app (Json.fields?_record (by simp)) (ihf hf) ha)
  | letIn bindings body ihd ih =>
      obtain ⟨m, rfl⟩ : ∃ m, n = m + 3 := h.exists_eq_add (by simp [depth_toJson_letIn])
      obtain ⟨hbindings, hbody⟩ := fits_letIn.1 h
      have hb := allOfJsonWithin?_readsArray.map_toJson fun e he => ih e he (hbody e he)
      rw [← toJsons_eq_map] at hb
      have hd : bindingsOfJsonWithin? (m + 1) (.array (bindings.map bindingToJson))
          = some bindings := by
        refine bindingsOfJsonWithin?_readsArray.map_toJson fun b hmem => ?_
        obtain ⟨k, rfl, hfits⟩ := hbindings b hmem
        exact bindingOfJsonWithin?_bindingToJson (ihd b hmem hfits)
      rw [← bindingsToJson_eq_map] at hd
      exact ofJsonWithin?_eq_some_iff.2 (.letIn (Json.fields?_record (by simp)) hd hb)
  | dict entries ih =>
      obtain ⟨m, rfl⟩ : ∃ m, n = m + 3 := h.exists_eq_add (by simp [depth_toJson_dict])
      have hentries := fits_dict.1 h
      have he : entriesOfJsonWithin? (m + 1) (.array (entries.map entryToJson)) = some entries := by
        refine entriesOfJsonWithin?_readsArray.map_toJson fun x hx => ?_
        obtain ⟨k, rfl, hkey, hvalue⟩ := hentries x hx
        exact entryOfJsonWithin?_entryToJson ((ih x hx).1 hkey) ((ih x hx).2 hvalue)
      rw [← entriesToJson_eq_map] at he
      exact ofJsonWithin?_eq_some_iff.2 (.dict (Json.fields?_record (by simp)) he)

/-- One more level does not change what is read. -/
theorem ofJsonWithin?_succ {e : Expr} {n : Nat} {v : Json} (h : ofJsonWithin? n v = some e) :
    ofJsonWithin? (n + 1) v = some e := by
  induction e using Expr.induction generalizing n v with
  | leaf e he =>
      rw [ofJsonWithin?_eq_some_iff] at h ⊢
      cases h with
      | number n hx => exact .number (n + 1) hx
      | bool n b => exact .bool (n + 1) b
      | str n s => exact .str (n + 1) s
      | var n s => exact .var (n + 1) s
      | prim n s => exact .prim (n + 1) s
      | literal hd => exact .literal (Datum.ofJsonWithin?_succ hd)
      | cond | lambda | app | letIn | dict => cases he
  | cond test yes no iht ihy ihn =>
      cases ofJsonWithin?_eq_some_iff.1 h with
      | cond hv ht hy hn =>
          exact ofJsonWithin?_eq_some_iff.2 (.cond hv (iht ht) (ihy hy) (ihn hn))
  | lambda params body ih =>
      cases ofJsonWithin?_eq_some_iff.1 h with
      | lambda hv hp hb =>
          have hb' := allOfJsonWithin?_readsArray.succ (fun e he _ _ => ih e he) hb
          exact ofJsonWithin?_eq_some_iff.2 (.lambda hv hp hb')
  | app operator operands ihf ih =>
      cases ofJsonWithin?_eq_some_iff.1 h with
      | app hv hf ha =>
          have ha' := allOfJsonWithin?_readsArray.succ (fun e he _ _ => ih e he) ha
          exact ofJsonWithin?_eq_some_iff.2 (.app hv (ihf hf) ha')
  | letIn bindings body ihd ih =>
      cases ofJsonWithin?_eq_some_iff.1 h with
      | letIn hv hd hb =>
          have hb' := allOfJsonWithin?_readsArray.succ (fun e he _ _ => ih e he) hb
          have hd' := bindingsOfJsonWithin?_readsArray.succ (fun b hmem m w hw => by
            obtain ⟨k, v₁, v₂, rfl, hw, hname, hvalue⟩ := bindingOfJsonWithin?_eq_some_iff.1 hw
            exact bindingOfJsonWithin?_eq_some_iff.2
              ⟨k + 1, v₁, v₂, rfl, hw, hname, ihd b hmem hvalue⟩) hd
          exact ofJsonWithin?_eq_some_iff.2 (.letIn hv hd' hb')
  | dict entries ih =>
      cases ofJsonWithin?_eq_some_iff.1 h with
      | dict hv he =>
          have he' := entriesOfJsonWithin?_readsArray.succ (fun x hx m w hw => by
            obtain ⟨k, v₁, v₂, rfl, hw, hkey, hvalue⟩ := entryOfJsonWithin?_eq_some_iff.1 hw
            exact entryOfJsonWithin?_eq_some_iff.2
              ⟨k + 1, v₁, v₂, rfl, hw, (ih x hx).1 hkey, (ih x hx).2 hvalue⟩) he
          exact ofJsonWithin?_eq_some_iff.2 (.dict hv he')

end Expr

end L32
