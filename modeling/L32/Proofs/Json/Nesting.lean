import L32.Json.Codec
import L32.Proofs.Number.ReadBack
import L32.Proofs.Tree

set_option autoImplicit false

/-! # Nesting, and reading data

How deep a JSON value nests is its `Json.depth`. A datum *fits* into a number of levels when its
JSON form nests at most so deep and all its numbers are finite (`Datum.Fits`).

* What is read with `n` levels left fits into `n` levels, whatever it was read from.
* What fits into `n` levels is read back from its JSON form with `n` levels left.
* One more level does not change what is read.

All three are inductions over the datum. They start from one inversion, which says from which JSON
values a datum is read (`Datum.Decodes`). How arrays and records are read is stated first, once for
all that is read from them (`Json.ReadsArray`, `Json.fields?_record`). -/

namespace L32

/-! ## Nesting -/

namespace Json

mutual

/-- How deep arrays and objects nest in the value. -/
def depth : Json → Nat
  | .null | .bool _ | .number _ | .str _ => 0
  | .array items => depthOfItems items + 1
  | .object fields => depthOfFields fields + 1

def depthOfItems : List Json → Nat
  | [] => 0
  | v :: vs => max v.depth (depthOfItems vs)

def depthOfFields : List (Option String × Json) → Nat
  | [] => 0
  | (_, v) :: fs => max v.depth (depthOfFields fs)

end

theorem depthOfItems_le_iff {items : List Json} {n : Nat} :
    depthOfItems items ≤ n ↔ ∀ v ∈ items, v.depth ≤ n := by
  induction items with
  | nil => simp [depthOfItems]
  | cons v vs ih => simp [depthOfItems, ih]

@[simp] theorem depth_tagged (tag : String) (content : Json) :
    (tagged tag content).depth = content.depth + 1 := by
  simp [tagged, depth, depthOfFields]

@[simp] theorem depth_ofString (s : String) : (ofString s).depth = 0 := by
  simp [ofString, depth]

@[simp] theorem depth_ofFloat (x : Float) : (ofFloat x).depth = 0 := by
  unfold ofFloat
  split <;> simp [depth]

theorem ofFloat_of_ofFloat? {x : Float} {n : Numeral} (h : Numeral.ofFloat? x = some n) :
    ofFloat x = .number n := by
  unfold ofFloat
  rw [h]

theorem depth_record (fields : List (String × Json)) :
    (record fields).depth = depthOfItems (fields.map Prod.snd) + 1 := by
  have hfields : ∀ fs : List (String × Json),
      depthOfFields (fs.map fun f => (some f.1, f.2)) = depthOfItems (fs.map Prod.snd) := by
    intro fs
    induction fs with
    | nil => rfl
    | cons f fs ih => simp [depthOfFields, depthOfItems, ih]
  simp [record, depth, hfields]

/-! ## Lists and records -/

theorem readAll_eq_some_iff {α β : Type} {f : α → Option β} {as : List α} {bs : List β} :
    readAll f as = some bs ↔ List.Forall₂ (fun a b => f a = some b) as bs := by
  induction as generalizing bs with
  | nil => simp [readAll, eq_comm]
  | cons a as ih =>
      simp only [readAll, Option.bind_eq_bind, Option.bind_eq_some_iff, ih, Option.some.injEq,
        List.forall₂_cons_left_iff]
      constructor
      · rintro ⟨b, hb, bs', hbs, rfl⟩
        exact ⟨b, bs', hb, hbs, rfl⟩
      · rintro ⟨b, bs', hb, hbs, rfl⟩
        exact ⟨b, hb, bs', hbs, rfl⟩

theorem field?_of_mem {fields : List (String × Json)} (hnodup : (fields.map Prod.fst).Nodup)
    {f : String × Json} (hf : f ∈ fields) :
    field? f.1 (fields.map fun g => (some g.1, g.2)) = some f.2 := by
  have honly : (fields.map fun g => (some g.1, g.2)).filter (fun g => g.1 = some f.1)
      = [(some f.1, f.2)] := by
    induction fields with
    | nil => cases hf
    | cons g gs ih =>
        rw [List.map_cons, List.nodup_cons] at hnodup
        have hfresh : ∀ g' ∈ gs, g'.1 ≠ g.1 := by
          intro g' hg' heq
          exact hnodup.1 (heq ▸ List.mem_map_of_mem hg')
        rcases List.mem_cons.1 hf with rfl | hf
        · rw [List.map_cons, List.filter_cons_of_pos (by simp), List.filter_eq_nil_iff.2]
          intro c hc
          obtain ⟨g', hg', rfl⟩ := List.mem_map.1 hc
          simpa using hfresh g' hg'
        · simpa [(hfresh f hf).symm] using ih hnodup.2 hf
  unfold field?
  rw [honly]

/-- A record is taken apart into its contents, in the order of its names. -/
theorem fields?_record {fields : List (String × Json)} (hnodup : (fields.map Prod.fst).Nodup) :
    (record fields).fields? (fields.map Prod.fst) = some (fields.map Prod.snd) := by
  have hnames : (fields.map fun f => (some f.1, f.2)).all (fun f => f.1.isSome) = true := by
    simp
  simp only [record, fields?]
  rw [if_pos hnames, readAll_eq_some_iff, List.forall₂_map_left_iff, List.forall₂_map_right_iff]
  exact List.forall₂_same.2 fun f hf => field?_of_mem hnodup hf

/-- `F` reads an array, one level down, of what `f` reads. -/
structure ReadsArray {α : Type} (f : Nat → Json → Option α) (F : Nat → Json → Option (List α)) :
    Prop where
  array : ∀ n items, F (n + 1) (.array items) = readAll (f n) items
  exists_array : ∀ {n v as}, F n v = some as → ∃ m items, n = m + 1 ∧ v = .array items

namespace ReadsArray

variable {α : Type} {f : Nat → Json → Option α} {F : Nat → Json → Option (List α)} {as : List α}

theorem eq_some_iff (h : ReadsArray f F) {n : Nat} {v : Json} :
    F n v = some as ↔ ∃ m items, n = m + 1 ∧ v = .array items
      ∧ List.Forall₂ (fun w a => f m w = some a) items as := by
  constructor
  · intro hF
    obtain ⟨m, items, rfl, rfl⟩ := h.exists_array hF
    rw [h.array, readAll_eq_some_iff] at hF
    exact ⟨m, items, rfl, rfl, hF⟩
  · rintro ⟨m, items, rfl, rfl, hall⟩
    rw [h.array, readAll_eq_some_iff]
    exact hall

/-- Every member of what is read was read with one level less. -/
theorem exists_of_eq_some (h : ReadsArray f F) {n : Nat} {v : Json} (hF : F n v = some as) :
    ∃ m, n = m + 1 ∧ ∀ a ∈ as, ∃ w, f m w = some a := by
  obtain ⟨m, items, rfl, rfl, hall⟩ := h.eq_some_iff.1 hF
  refine ⟨m, rfl, fun a ha => ?_⟩
  obtain ⟨w, _, hw⟩ := exists_mem_left_of_forall₂ hall ha
  exact ⟨w, hw⟩

/-- An array of JSON forms is read back if each of them is. -/
theorem map_toJson (h : ReadsArray f F) {n : Nat} {toJson : α → Json}
    (hf : ∀ a ∈ as, f n (toJson a) = some a) : F (n + 1) (.array (as.map toJson)) = some as := by
  refine h.eq_some_iff.2 ⟨n, _, rfl, rfl, ?_⟩
  rw [List.forall₂_map_left_iff]
  exact List.forall₂_same.2 hf

/-- One more level does not change what is read if it does not for the members. -/
theorem succ (h : ReadsArray f F) {n : Nat} {v : Json}
    (hf : ∀ a ∈ as, ∀ m w, f m w = some a → f (m + 1) w = some a) (hF : F n v = some as) :
    F (n + 1) v = some as := by
  obtain ⟨m, items, rfl, rfl, hall⟩ := h.eq_some_iff.1 hF
  refine h.eq_some_iff.2 ⟨m + 1, items, rfl, rfl, ?_⟩
  -- the hypothesis is about the members of the second list
  have hback : List.Forall₂ (fun a w => f m w = some a) as items := hall.flip
  exact (forall₂_imp_of_mem (fun a ha w hw => hf a ha m w hw) hback).flip

end ReadsArray

theorem strings?_array_ofString (ss : List String) :
    strings? (.array (ss.map ofString)) = some ss := by
  show readAll string? (ss.map ofString) = some ss
  rw [readAll_eq_some_iff, List.forall₂_map_left_iff]
  exact List.forall₂_same.2 fun s _ => rfl

end Json

/-! ## Data -/

namespace Datum

def numbers : Datum → List Float
  | .number x => [x]
  | .pair h t => h.numbers ++ t.numbers
  | _ => []

def AllFinite (d : Datum) : Prop :=
  ∀ x ∈ d.numbers, isFinite x = true

/-- The JSON form can be read with that many levels of nesting. -/
structure Fits (d : Datum) (n : Nat) : Prop where
  depth_le : d.toJson.depth ≤ n
  allFinite : d.AllFinite

/-- From which JSON values a datum is read, in terms of its parts. -/
inductive Decodes : Nat → Json → Datum → Prop
  | symbol (n : Nat) (s : String) : Decodes (n + 1) (.tagged "Symbol" (.ofString s)) (.symbol s)
  | number (n : Nat) {numeral : Numeral} {x : Float} (h : numeral.toFloat? = some x) :
      Decodes (n + 1) (.tagged "Number" (.number numeral)) (.number x)
  | bool (n : Nat) (b : Bool) : Decodes (n + 1) (.tagged "Bool" (.bool b)) (.bool b)
  | str (n : Nat) (s : String) : Decodes (n + 1) (.tagged "Str" (.ofString s)) (.str s)
  | pair {n : Nat} {v w : Json} {h t : Datum} (hh : ofJsonWithin? n v = some h)
      (ht : ofJsonWithin? n w = some t) :
      Decodes (n + 2) (.tagged "Pair" (.array [v, w])) (.pair h t)
  | empty (n : Nat) : Decodes n (.ofString "Empty") .empty
  | emptyTagged (n : Nat) : Decodes (n + 1) (.tagged "Empty" .null) .empty

end Datum

namespace Json

theorem string?_eq_some {v : Json} {s : String} (h : v.string? = some s) : v = .ofString s := by
  cases v with
  | str content =>
      cases h
      rfl
  | _ => cases h

theorem bool?_eq_some {v : Json} {b : Bool} (h : v.bool? = some b) : v = .bool b := by
  cases v with
  | bool b' =>
      cases h
      rfl
  | _ => cases h

theorem float?_eq_some {v : Json} {x : Float} (h : v.float? = some x) :
    ∃ numeral : Numeral, v = .number numeral ∧ numeral.toFloat? = some x := by
  cases v with
  | number numeral => exact ⟨numeral, rfl, h⟩
  | _ => cases h

end Json

open Json in
theorem Datum.ofJsonWithin?_eq_some_iff {n : Nat} {v : Json} {d : Datum} :
    Datum.ofJsonWithin? n v = some d ↔ Datum.Decodes n v d := by
  constructor
  · intro h
    rw [Datum.ofJsonWithin?.eq_def] at h
    split at h
    · split at h
      · obtain ⟨s, hs, rfl⟩ := Option.map_eq_some_iff.1 h
        rw [string?_eq_some hs]
        exact .symbol _ s
      · obtain ⟨x, hx, rfl⟩ := Option.map_eq_some_iff.1 h
        obtain ⟨numeral, rfl, hx⟩ := float?_eq_some hx
        exact .number _ hx
      · obtain ⟨b, hb, rfl⟩ := Option.map_eq_some_iff.1 h
        rw [bool?_eq_some hb]
        exact .bool _ b
      · obtain ⟨s, hs, rfl⟩ := Option.map_eq_some_iff.1 h
        rw [string?_eq_some hs]
        exact .str _ s
      · split at h
        · simp only [Option.bind_eq_bind, Option.bind_eq_some_iff, Option.some.injEq] at h
          obtain ⟨_, hh, _, ht, rfl⟩ := h
          exact .pair hh ht
        · cases h
      · split at h
        · cases h
          exact .emptyTagged _
        · cases h
      · cases h
    · cases h
      exact .empty _
    · cases h
  · intro h
    rw [Datum.ofJsonWithin?.eq_def]
    cases h with
    | symbol | bool | str | emptyTagged => rfl
    | number _ hx => simp [tagged, float?, hx]
    | pair hh ht => simp [tagged, hh, ht]
    | empty => simp [ofString]

namespace Datum

theorem depth_toJson_pair (h t : Datum) :
    (pair h t).toJson.depth = max h.toJson.depth t.toJson.depth + 2 := by
  simp [toJson, Json.depth, Json.depthOfItems]

theorem allFinite_pair {h t : Datum} : (pair h t).AllFinite ↔ h.AllFinite ∧ t.AllFinite := by
  simp only [AllFinite, numbers, List.mem_append]
  constructor
  · intro hall
    exact ⟨fun x hx => hall x (Or.inl hx), fun x hx => hall x (Or.inr hx)⟩
  · rintro ⟨hh, ht⟩ x (hx | hx)
    · exact hh x hx
    · exact ht x hx

theorem fits_pair {h t : Datum} {n : Nat} : (pair h t).Fits (n + 2) ↔ h.Fits n ∧ t.Fits n := by
  constructor
  · rintro ⟨hdepth, hfinite⟩
    rw [depth_toJson_pair] at hdepth
    obtain ⟨hh, ht⟩ := allFinite_pair.1 hfinite
    exact ⟨⟨by omega, hh⟩, ⟨by omega, ht⟩⟩
  · rintro ⟨hh, ht⟩
    refine ⟨?_, allFinite_pair.2 ⟨hh.allFinite, ht.allFinite⟩⟩
    have := hh.depth_le
    have := ht.depth_le
    rw [depth_toJson_pair]
    omega

/-- A datum without parts needs one level, and the empty list none. -/
theorem fits_of_numbers_eq_nil {d : Datum} {n : Nat} (hnumbers : d.numbers = [])
    (hdepth : d.toJson.depth ≤ n) : d.Fits n := by
  refine ⟨hdepth, fun x hx => ?_⟩
  rw [hnumbers] at hx
  cases hx

theorem Fits.exists_eq_add_one {d : Datum} {n : Nat} (h : d.Fits n) (hpos : 0 < d.toJson.depth) :
    ∃ m, n = m + 1 :=
  ⟨n - 1, by have := h.depth_le; omega⟩

theorem fits_number {x : Float} {n : Nat} : (number x).Fits (n + 1) ↔ isFinite x = true := by
  constructor
  · intro h
    exact h.allFinite x (by simp [numbers])
  · intro h
    refine ⟨by simp [toJson], fun y hy => ?_⟩
    simp only [numbers, List.mem_singleton] at hy
    rwa [hy]

/-- **A datum that is read fits** into the levels it was read with. -/
theorem fits_of_ofJsonWithin? {d : Datum} {n : Nat} {v : Json} (h : ofJsonWithin? n v = some d) :
    d.Fits n := by
  induction d generalizing n v with
  | symbol s =>
      cases ofJsonWithin?_eq_some_iff.1 h with
      | symbol => exact fits_of_numbers_eq_nil rfl (by simp [toJson])
  | number x =>
      cases ofJsonWithin?_eq_some_iff.1 h with
      | number _ hx => exact fits_number.2 (Numeral.isFinite_of_toFloat? hx)
  | bool b =>
      cases ofJsonWithin?_eq_some_iff.1 h with
      | bool => exact fits_of_numbers_eq_nil rfl (by simp [toJson, Json.depth])
  | str s =>
      cases ofJsonWithin?_eq_some_iff.1 h with
      | str => exact fits_of_numbers_eq_nil rfl (by simp [toJson])
  | empty => exact fits_of_numbers_eq_nil rfl (by simp [toJson])
  | pair a b iha ihb =>
      cases ofJsonWithin?_eq_some_iff.1 h with
      | pair ha hb => exact fits_pair.2 ⟨iha ha, ihb hb⟩

/-- **A datum that fits is read back** from its JSON form. -/
theorem ofJsonWithin?_toJson {d : Datum} {n : Nat} (h : d.Fits n) :
    ofJsonWithin? n d.toJson = some d := by
  rw [ofJsonWithin?_eq_some_iff]
  induction d generalizing n with
  | symbol s =>
      obtain ⟨m, rfl⟩ := h.exists_eq_add_one (by simp [toJson])
      exact .symbol m s
  | number x =>
      obtain ⟨m, rfl⟩ := h.exists_eq_add_one (by simp [toJson])
      obtain ⟨numeral, hof, hto⟩ := Numeral.exists_ofFloat?_of_isFinite (fits_number.1 h)
      rw [toJson, Json.ofFloat_of_ofFloat? hof]
      exact .number m hto
  | bool b =>
      obtain ⟨m, rfl⟩ := h.exists_eq_add_one (by simp [toJson])
      exact .bool m b
  | str s =>
      obtain ⟨m, rfl⟩ := h.exists_eq_add_one (by simp [toJson])
      exact .str m s
  | empty => exact .empty n
  | pair a b iha ihb =>
      obtain ⟨m, rfl⟩ : ∃ m, n = m + 2 :=
        ⟨n - 2, by have := h.depth_le; rw [depth_toJson_pair] at this; omega⟩
      obtain ⟨ha, hb⟩ := fits_pair.1 h
      exact .pair (ofJsonWithin?_eq_some_iff.2 (iha ha)) (ofJsonWithin?_eq_some_iff.2 (ihb hb))

/-- One more level does not change what is read. -/
theorem ofJsonWithin?_succ {d : Datum} {n : Nat} {v : Json} (h : ofJsonWithin? n v = some d) :
    ofJsonWithin? (n + 1) v = some d := by
  rw [ofJsonWithin?_eq_some_iff] at h ⊢
  induction d generalizing n v with
  | symbol s => cases h with | symbol n => exact .symbol (n + 1) s
  | number x => cases h with | number n hx => exact .number (n + 1) hx
  | bool b => cases h with | bool n => exact .bool (n + 1) b
  | str s => cases h with | str n => exact .str (n + 1) s
  | empty =>
      cases h with
      | empty => exact .empty (n + 1)
      | emptyTagged n => exact .emptyTagged (n + 1)
  | pair a b iha ihb =>
      cases h with
      | pair ha hb =>
          rw [ofJsonWithin?_eq_some_iff] at ha hb
          exact .pair (ofJsonWithin?_eq_some_iff.2 (iha ha)) (ofJsonWithin?_eq_some_iff.2 (ihb hb))

end Datum

end L32
