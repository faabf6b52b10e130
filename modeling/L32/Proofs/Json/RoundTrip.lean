import L32.Proofs.Json.Decoding
import L32.Proofs.Json.Text

set_option autoImplicit false

/-! # The JSON encoding round-trips

Forms and programs are read and read back like the expressions in them. With the texts of JSON
values, which are read as these values, this gives the main statement `json_encoding_round_trips`:
data, expressions, forms and programs with finite numbers that nest within the limit are read back
from both of their texts, and whatever text is read, in any order of fields and with any others
among them, gives such a one.

`Program.ofJsonWithin?_toJson_eq_none` is the other side for programs: one that nests too deep
cannot be read back. -/

namespace L32

/-! ## Forms -/

namespace Form

def AllFinite (f : Form) : Prop :=
  f.expression.AllFinite

structure Fits (f : Form) (n : Nat) : Prop where
  depth_le : f.toJson.depth ≤ n
  allFinite : f.AllFinite

theorem depth_toJson_define (name : String) (value : Expr) :
    (define name value).toJson.depth = value.toJson.depth + 2 := by
  simp [toJson, Json.depth_record, Json.depthOfItems]

theorem depth_toJson_expr (value : Expr) : (expr value).toJson.depth = value.toJson.depth + 1 := by
  simp [toJson]

theorem fits_define {name : String} {value : Expr} {n : Nat} :
    (define name value).Fits (n + 2) ↔ value.Fits n := by
  constructor
  · rintro ⟨hdepth, hfinite⟩
    rw [depth_toJson_define] at hdepth
    exact ⟨by omega, hfinite⟩
  · rintro ⟨hdepth, hfinite⟩
    refine ⟨?_, hfinite⟩
    rw [depth_toJson_define]
    omega

theorem fits_expr {value : Expr} {n : Nat} : (expr value).Fits (n + 1) ↔ value.Fits n := by
  constructor
  · rintro ⟨hdepth, hfinite⟩
    rw [depth_toJson_expr] at hdepth
    exact ⟨by omega, hfinite⟩
  · rintro ⟨hdepth, hfinite⟩
    refine ⟨?_, hfinite⟩
    rw [depth_toJson_expr]
    omega

inductive Decodes : Nat → Json → Form → Prop
  | define {n : Nat} {v v₁ v₂ : Json} {name : String} {value : Expr}
      (hv : v.fields? ["name", "value"] = some [v₁, v₂]) (hname : v₁.string? = some name)
      (hvalue : Expr.ofJsonWithin? n v₂ = some value) :
      Decodes (n + 2) (.tagged "Define" v) (.define name value)
  | expr {n : Nat} {v : Json} {value : Expr} (hvalue : Expr.ofJsonWithin? n v = some value) :
      Decodes (n + 1) (.tagged "Expr" v) (.expr value)

theorem ofJsonWithin?_eq_some_iff {n : Nat} {v : Json} {f : Form} :
    ofJsonWithin? n v = some f ↔ Decodes n v f := by
  constructor
  · intro h
    rw [ofJsonWithin?.eq_def] at h
    split at h
    · split at h
      · split at h
        · rename_i hv
          simp only [Option.bind_eq_bind, Option.bind_eq_some_iff, Option.some.injEq] at h
          obtain ⟨_, hname, _, hvalue, rfl⟩ := h
          exact .define hv hname hvalue
        · cases h
      · obtain ⟨_, hvalue, rfl⟩ := Option.map_eq_some_iff.1 h
        exact .expr hvalue
      · cases h
    · cases h
  · intro h
    rw [ofJsonWithin?.eq_def]
    cases h with
    | define hv hname hvalue => simp [Json.tagged, hv, hname, hvalue]
    | expr hvalue => simp [Json.tagged, hvalue]

theorem fits_of_ofJsonWithin? {f : Form} {n : Nat} {v : Json} (h : ofJsonWithin? n v = some f) :
    f.Fits n := by
  cases ofJsonWithin?_eq_some_iff.1 h with
  | define _ _ hvalue => exact fits_define.2 (Expr.fits_of_ofJsonWithin? hvalue)
  | expr hvalue => exact fits_expr.2 (Expr.fits_of_ofJsonWithin? hvalue)

theorem ofJsonWithin?_toJson {f : Form} {n : Nat} (h : f.Fits n) :
    ofJsonWithin? n f.toJson = some f := by
  have hdepth := h.depth_le
  cases f with
  | define name value =>
      rw [depth_toJson_define] at hdepth
      obtain ⟨m, rfl⟩ : ∃ m, n = m + 2 := ⟨n - 2, by omega⟩
      exact ofJsonWithin?_eq_some_iff.2 (.define (Json.fields?_record (by simp)) rfl
        (Expr.ofJsonWithin?_toJson (fits_define.1 h)))
  | expr value =>
      rw [depth_toJson_expr] at hdepth
      obtain ⟨m, rfl⟩ : ∃ m, n = m + 1 := ⟨n - 1, by omega⟩
      exact ofJsonWithin?_eq_some_iff.2 (.expr (Expr.ofJsonWithin?_toJson (fits_expr.1 h)))

theorem ofJsonWithin?_succ {f : Form} {n : Nat} {v : Json} (h : ofJsonWithin? n v = some f) :
    ofJsonWithin? (n + 1) v = some f := by
  rw [ofJsonWithin?_eq_some_iff] at h ⊢
  cases h with
  | define hv hname hvalue => exact .define hv hname (Expr.ofJsonWithin?_succ hvalue)
  | expr hvalue => exact .expr (Expr.ofJsonWithin?_succ hvalue)

end Form

/-! ## Programs -/

namespace Program

def AllFinite (p : Program) : Prop :=
  ∀ f ∈ p.forms, f.AllFinite

structure Fits (p : Program) (n : Nat) : Prop where
  depth_le : p.toJson.depth ≤ n
  allFinite : p.AllFinite

theorem depth_toJson (p : Program) :
    p.toJson.depth = Json.depthOfItems (p.forms.map Form.toJson) + 2 := by
  simp [toJson, Json.depth_record, Json.depthOfItems, Json.depth]

theorem fits_iff {p : Program} {n : Nat} : p.Fits (n + 2) ↔ ∀ f ∈ p.forms, f.Fits n := by
  have hforms : Json.depthOfItems (p.forms.map Form.toJson) ≤ n
      ↔ ∀ f ∈ p.forms, f.toJson.depth ≤ n := by
    rw [Json.depthOfItems_le_iff]
    simp
  constructor
  · rintro ⟨hdepth, hfinite⟩ f hf
    rw [depth_toJson] at hdepth
    exact ⟨hforms.1 (by omega) f hf, hfinite f hf⟩
  · intro h
    refine ⟨?_, fun f hf => (h f hf).allFinite⟩
    rw [depth_toJson]
    have := hforms.2 fun f hf => (h f hf).depth_le
    omega

theorem ofJsonWithin?_eq_some_iff {n : Nat} {v : Json} {p : Program} :
    ofJsonWithin? n v = some p ↔ ∃ m items, n = m + 2
      ∧ v.fields? ["forms"] = some [.array items]
      ∧ List.Forall₂ (fun w f => Form.ofJsonWithin? m w = some f) items p.forms := by
  constructor
  · intro h
    rw [ofJsonWithin?.eq_def] at h
    split at h
    · split at h
      · rename_i hv
        obtain ⟨forms, hforms, rfl⟩ := Option.map_eq_some_iff.1 h
        exact ⟨_, _, rfl, hv, Json.readAll_eq_some_iff.1 hforms⟩
      · cases h
    · cases h
  · rintro ⟨m, items, rfl, hv, hforms⟩
    rw [← Json.readAll_eq_some_iff] at hforms
    simp [ofJsonWithin?, hv, hforms]

theorem fits_of_ofJsonWithin? {p : Program} {n : Nat} {v : Json} (h : ofJsonWithin? n v = some p) :
    p.Fits n := by
  obtain ⟨m, items, rfl, _, hforms⟩ := ofJsonWithin?_eq_some_iff.1 h
  refine fits_iff.2 fun f hf => ?_
  obtain ⟨w, _, hw⟩ := exists_mem_left_of_forall₂ hforms hf
  exact Form.fits_of_ofJsonWithin? hw

theorem ofJsonWithin?_toJson {p : Program} {n : Nat} (h : p.Fits n) :
    ofJsonWithin? n p.toJson = some p := by
  obtain ⟨m, rfl⟩ : ∃ m, n = m + 2 := ⟨n - 2, by
    have := h.depth_le
    rw [depth_toJson] at this
    omega⟩
  refine ofJsonWithin?_eq_some_iff.2 ⟨m, _, rfl, Json.fields?_record (by simp), ?_⟩
  rw [List.forall₂_map_left_iff]
  exact List.forall₂_same.2 fun f hf => Form.ofJsonWithin?_toJson (fits_iff.1 h f hf)

theorem ofJsonWithin?_succ {p : Program} {n : Nat} {v : Json} (h : ofJsonWithin? n v = some p) :
    ofJsonWithin? (n + 1) v = some p := by
  obtain ⟨m, items, rfl, hv, hforms⟩ := ofJsonWithin?_eq_some_iff.1 h
  exact ofJsonWithin?_eq_some_iff.2
    ⟨m + 1, items, rfl, hv, hforms.imp fun _ _ => Form.ofJsonWithin?_succ⟩

/-- More levels do not change what is read. -/
theorem ofJsonWithin?_of_le {p : Program} {n m : Nat} {v : Json} (hle : n ≤ m)
    (h : ofJsonWithin? n v = some p) : ofJsonWithin? m v = some p := by
  induction hle with
  | refl => exact h
  | step _ ih => exact ofJsonWithin?_succ ih

/-- **From the JSON form of a program that nests too deep nothing is read.** -/
theorem ofJsonWithin?_toJson_eq_none {p : Program} {n : Nat} (hfinite : p.AllFinite)
    (hdepth : n < p.toJson.depth) : ofJsonWithin? n p.toJson = none := by
  cases hread : ofJsonWithin? n p.toJson with
  | none => rfl
  | some q =>
      -- with more levels both programs are read, so they are the same
      have hp : ofJsonWithin? p.toJson.depth p.toJson = some p :=
        ofJsonWithin?_toJson ⟨le_refl _, hfinite⟩
      have hq := ofJsonWithin?_of_le hdepth.le hread
      rw [hp, Option.some.injEq] at hq
      have := (fits_of_ofJsonWithin? hread).depth_le
      rw [← hq] at this
      omega

end Program

/-! ## Texts -/

/-- What holds of an encoding of values as JSON texts: `AllFinite` says of a value that it has no
numbers without a text. -/
structure Json.RoundTrips {α : Type} (toJson : α → Json) (ofJson? : Json → Option α)
    (AllFinite : α → Prop) : Prop where
  /-- The text without blanks is read as the value. -/
  compact : ∀ a, AllFinite a → (toJson a).depth ≤ nestingLimit →
    (Json.read? (toJson a).compact).bind ofJson? = some a
  /-- The indented text is read as the value. -/
  pretty : ∀ a, AllFinite a → (toJson a).depth ≤ nestingLimit →
    (Json.read? (toJson a).pretty).bind ofJson? = some a
  /-- Every value that is read from some text has these two properties, so its own texts are read as
  it. -/
  accepted : ∀ text a, (Json.read? text).bind ofJson? = some a →
    AllFinite a ∧ (toJson a).depth ≤ nestingLimit
      ∧ (Json.read? (toJson a).compact).bind ofJson? = some a
      ∧ (Json.read? (toJson a).pretty).bind ofJson? = some a

/-- Reading texts follows reading JSON values. -/
theorem Json.RoundTrips.of_values {α : Type} {toJson : α → Json} {ofJson? : Json → Option α}
    {AllFinite : α → Prop}
    (hback : ∀ a, AllFinite a → (toJson a).depth ≤ nestingLimit → ofJson? (toJson a) = some a)
    (hread : ∀ v a, ofJson? v = some a → AllFinite a ∧ (toJson a).depth ≤ nestingLimit) :
    Json.RoundTrips toJson ofJson? AllFinite := by
  have hcompact : ∀ a, AllFinite a → (toJson a).depth ≤ nestingLimit →
      (Json.read? (toJson a).compact).bind ofJson? = some a := by
    intro a hfinite hdepth
    rw [Json.read?_compact]
    exact hback a hfinite hdepth
  have hpretty : ∀ a, AllFinite a → (toJson a).depth ≤ nestingLimit →
      (Json.read? (toJson a).pretty).bind ofJson? = some a := by
    intro a hfinite hdepth
    rw [Json.read?_pretty]
    exact hback a hfinite hdepth
  refine ⟨hcompact, hpretty, fun text a h => ?_⟩
  obtain ⟨v, _, hv⟩ := Option.bind_eq_some_iff.1 h
  obtain ⟨hfinite, hdepth⟩ := hread v a hv
  exact ⟨hfinite, hdepth, hcompact a hfinite hdepth, hpretty a hfinite hdepth⟩

/-- **The JSON encoding round-trips** for data, expressions, forms and programs. -/
theorem json_encoding_round_trips :
    Json.RoundTrips Datum.toJson Datum.ofJson? Datum.AllFinite
      ∧ Json.RoundTrips Expr.toJson Expr.ofJson? Expr.AllFinite
      ∧ Json.RoundTrips Form.toJson Form.ofJson? Form.AllFinite
      ∧ Json.RoundTrips Program.toJson Program.ofJson? Program.AllFinite := by
  refine ⟨.of_values ?_ ?_, .of_values ?_ ?_, .of_values ?_ ?_, .of_values ?_ ?_⟩
  · exact fun d hfinite hdepth => Datum.ofJsonWithin?_toJson ⟨hdepth, hfinite⟩
  · intro v d h
    have hfits := Datum.fits_of_ofJsonWithin? h
    exact ⟨hfits.allFinite, hfits.depth_le⟩
  · exact fun e hfinite hdepth => Expr.ofJsonWithin?_toJson ⟨hdepth, hfinite⟩
  · intro v e h
    have hfits := Expr.fits_of_ofJsonWithin? h
    exact ⟨hfits.allFinite, hfits.depth_le⟩
  · exact fun f hfinite hdepth => Form.ofJsonWithin?_toJson ⟨hdepth, hfinite⟩
  · intro v f h
    have hfits := Form.fits_of_ofJsonWithin? h
    exact ⟨hfits.allFinite, hfits.depth_le⟩
  · exact fun p hfinite hdepth => Program.ofJsonWithin?_toJson ⟨hdepth, hfinite⟩
  · intro v p h
    have hfits := Program.fits_of_ofJsonWithin? h
    exact ⟨hfits.allFinite, hfits.depth_le⟩

/-- A string of characters that are written in ways of their own, and a condition that is read from
an array, in a program with one more field. -/
theorem json_encoding_round_trips_escaped :
    (Json.read? (Datum.str "\"\\\n\x01é😀").toJson.pretty).bind Datum.ofJson?
        = some (.str "\"\\\n\x01é😀")
      ∧ ∃ p : Program, p.forms = [.expr (.cond (.bool true) (.var "x") (.str "é"))]
        ∧ (Json.read? p.toJson.pretty).bind Program.ofJson? = some p := by
  refine ⟨json_encoding_round_trips.1.pretty _ (fun _ h => nomatch h) (by decide), _, rfl, ?_⟩
  let condition := Json.tagged "If" (.array [(Expr.bool true).toJson, (Expr.var "x").toJson,
    (Expr.str "é").toJson])
  let v := Json.record [("note", .null), ("forms", .array [.tagged "Expr" condition])]
  have hread : (Json.read? v.compact).bind Program.ofJson?
      = some ⟨[.expr (.cond (.bool true) (.var "x") (.str "é"))]⟩ := by
    rw [Json.read?_compact]
    rfl
  exact (json_encoding_round_trips.2.2.2.accepted _ _ hread).2.2.2

end L32
