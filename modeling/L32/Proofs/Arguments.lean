import L32.CommandLine.Arguments
import L32.Proofs.Sequence
import Mathlib.Tactic.Common

set_option autoImplicit false

/-! # The same arguments for three commands

`desugar` takes an option that `run` does not, and each command looks at its arguments by itself.
Still they ask for the same thing. Without `--scheme` the arguments consist of the same items for
both (`items_scheme`), and `--scheme` in front changes nothing in how the others are sorted
(`Sorted.foldlM_add_withScheme`). So `run`, `desugar` and `desugar --scheme` find the same file and
the same settings in them, or refuse them for the same reason (`Command.parse_run`,
`Command.parse_desugar`, `Command.parse_desugar_scheme`). -/

namespace L32

open CommandLine

/-! ## Arguments without `--scheme` -/

namespace CommandLine

theorem eq_of_splitAtEquals {cs name : List Char} (h : splitAtEquals cs = (name, none)) :
    cs = name := by
  fun_induction splitAtEquals cs generalizing name with
  | case1 => cases h; rfl
  | case2 cs => cases h
  | case3 c cs _ front back hcs ih =>
      cases h
      rw [ih hcs]

theorem Flag.eq_of_ofName?_scheme {name : String} (h : ofName? name = some scheme) :
    name = "scheme" := by
  unfold ofName? at h
  split at h
  · cases h
  · cases h
  · rfl
  · cases h
  · cases h

namespace Argument

theorem eq_of_ofLong_scheme {cs : List Char} (h : ofLong cs = .flag .scheme none) :
    cs = "scheme".toList := by
  unfold ofLong at h
  cases hcs : splitAtEquals cs with
  | mk name value =>
      rw [hcs] at h
      dsimp only at h
      split at h
      · cases h
      · split at h
        · next flag hflag =>
            rw [Argument.flag.injEq, Option.map_eq_none_iff] at h
            obtain ⟨rfl, rfl⟩ := h
            rw [eq_of_splitAtEquals hcs, ← Flag.eq_of_ofName?_scheme hflag, String.toList_ofList]
        · cases h

/-- There is one way to write the option `--scheme`. -/
theorem eq_of_ofString_scheme {arg : String} (h : ofString arg = .flag .scheme none) :
    arg = "--scheme" := by
  unfold ofString at h
  split at h
  case h_2 cs _ harg =>
    rw [← String.toList_inj, harg, eq_of_ofLong_scheme h]
    rfl
  all_goals cases h

/-- What can be the value of an option is a file where none is expected. -/
theorem ofString_of_isValue {arg : String} (h : isValue arg = true) : ofString arg = .file arg := by
  unfold isValue at h
  split at h
  · cases h
  · next hne =>
      unfold ofString
      split <;> simp_all

end Argument

/-- Arguments without `--scheme`, behind one that is not the end of the options. -/
theorem not_mem_takeWhile_of_cons {arg : String} {args : List String}
    (harg : Argument.ofString arg ≠ .stop)
    (h : "--scheme" ∉ (arg :: args).takeWhile (· ≠ "--")) :
    Argument.ofString arg ≠ .flag .scheme none ∧ "--scheme" ∉ args.takeWhile (· ≠ "--") := by
  have hne : arg ≠ "--" := by
    rintro rfl
    exact harg rfl
  rw [List.takeWhile_cons_of_pos (by simpa using hne), List.mem_cons, not_or] at h
  exact ⟨fun hscheme => h.1 (Argument.eq_of_ofString_scheme hscheme).symm, h.2⟩

theorem contains_scheme {flag : Flag} (h : [Flag.config, .valuePolicy].contains flag = true) :
    [Flag.config, .valuePolicy, .scheme].contains flag = true := by
  cases flag <;> trivial

/-- **What `run` takes is what `desugar` takes without `--scheme`.** -/
theorem items_scheme {args : List String} (h : "--scheme" ∉ args.takeWhile (· ≠ "--")) :
    items [.config, .valuePolicy, .scheme] args = items [.config, .valuePolicy] args := by
  fun_induction items [.config, .valuePolicy] args with
  | case1 => rfl
  | case2 arg args harg | case3 arg args harg | case4 arg args harg => rw [items, harg]
  | case5 arg args name harg ih =>
      have hargs := not_mem_takeWhile_of_cons (by simp [harg]) h
      rw [items, harg, ← ih hargs.2]
  | case6 arg args flag hallowed v htakes harg ih =>
      have hargs := not_mem_takeWhile_of_cons (by simp [harg]) h
      rw [items, harg, ← ih hargs.2]
      simp only [contains_scheme hallowed, htakes, if_true]
  | case7 arg flag hallowed htakes v args hv harg ih =>
      -- two arguments are read at once, and the value does not end the options either
      have hargs := not_mem_takeWhile_of_cons (by simp [harg]) h
      have hrest := not_mem_takeWhile_of_cons (by simp [Argument.ofString_of_isValue hv]) hargs.2
      rw [items, harg, ← ih hrest.2]
      simp only [contains_scheme hallowed, htakes, hv, if_true]
  | case8 arg flag hallowed htakes v args hv harg =>
      rw [items, harg]
      simp only [contains_scheme hallowed, htakes, if_neg hv, if_true]
  | case9 arg flag hallowed htakes harg =>
      rw [items, harg]
      simp only [contains_scheme hallowed, htakes, if_true]
  | case10 arg args flag hallowed htakes harg ih =>
      have hargs := not_mem_takeWhile_of_cons (by simp [harg]) h
      rw [items, harg, ← ih hargs.2]
      simp only [contains_scheme hallowed, htakes, if_true]
  | case11 arg args flag hallowed v htakes harg =>
      rw [items, harg]
      simp only [contains_scheme hallowed, htakes, if_true]
  | case12 arg args flag value harg hallowed =>
      -- of the options that `run` refuses, `desugar` takes only `--scheme`
      have hargs := not_mem_takeWhile_of_cons (by simp [harg]) h
      rw [items, harg]
      cases flag with
      | config => exact absurd rfl hallowed
      | valuePolicy => exact absurd rfl hallowed
      | stdout => rfl
      | scheme =>
          -- and that not with a value
          cases value with
          | none => exact absurd harg hargs.1
          | some v => rfl

/-- No option is among the items that the command does not take. -/
theorem mem_of_flag_mem_items {allowed : List Flag} {args : List String} {flag : Flag} {v : String}
    (h : .flag flag v ∈ items allowed args) : flag ∈ allowed := by
  fun_induction items allowed args with
  | case1 => cases h
  | case2 | case3 | case4 | case8 | case9 | case11 | case12 => simp at h
  | case5 arg args name harg ih => exact ih (by simpa using h)
  | case6 arg args flag' hallowed v' htakes harg ih
  | case7 arg flag' hallowed htakes v' args hv harg ih
  | case10 arg args flag' hallowed htakes harg ih =>
      rcases List.mem_cons.1 h with h | h
      · cases h
        exact List.contains_iff_mem.1 hallowed
      · exact ih h

namespace Sorted

def withScheme (sorted : Sorted) : Sorted := { sorted with flags := (.scheme, "") :: sorted.flags }

theorem value?_withScheme (sorted : Sorted) {flag : Flag} (h : flag ≠ .scheme) :
    sorted.withScheme.value? flag = sorted.value? flag := by
  rw [value?, withScheme, List.find?_cons_of_neg (by simpa using h.symm)]
  rfl

theorem settings_withScheme (sorted : Sorted) : sorted.withScheme.settings = sorted.settings := by
  rw [settings, value?_withScheme sorted (by decide), value?_withScheme sorted (by decide)]
  rfl

/-- `--scheme` in front changes nothing in how the others are added. -/
theorem add_withScheme (sorted : Sorted) {item : Item} (h : ∀ v, item ≠ .flag .scheme v) :
    sorted.withScheme.add item = (sorted.add item).map withScheme := by
  cases item with
  | file name =>
      show (if sorted.file = none then _ else _) = Except.map _ (if sorted.file = none then _ else _)
      split <;> rfl
  | flag flag v =>
      have hflag : flag ≠ .scheme := by
        rintro rfl
        exact h v rfl
      have hhas : sorted.withScheme.has flag = sorted.has flag := by
        rw [has, value?_withScheme sorted hflag]
        rfl
      rw [add, add, addFlag, addFlag, hhas]
      split
      · rfl
      · split <;> rfl
  | help => rfl
  | wrong => rfl

theorem foldlM_add_withScheme {is : List Item} (h : ∀ item ∈ is, ∀ v, item ≠ .flag .scheme v)
    (sorted : Sorted) :
    is.foldlM add sorted.withScheme = (is.foldlM add sorted).map withScheme := by
  induction is generalizing sorted with
  | nil => rfl
  | cons item is ih =>
      obtain ⟨hitem, his⟩ := List.forall_mem_cons.1 h
      rw [List.foldlM_cons, List.foldlM_cons, add_withScheme sorted hitem]
      cases sorted.add item with
      | error e => rfl
      | ok sorted' => exact ih his sorted'

theorem has_of_add {sorted sorted' : Sorted} {item : Item} (h : sorted.add item = .ok sorted')
    (hitem : ∀ v, item ≠ .flag .scheme v) : sorted'.has .scheme = sorted.has .scheme := by
  cases item with
  | file name =>
      rw [add] at h
      split at h
      · cases h
        rfl
      · cases h
  | flag flag v =>
      have hflag : flag ≠ .scheme := by
        rintro rfl
        exact hitem v rfl
      rw [add, addFlag] at h
      split at h
      · cases h
      · split at h
        · cases h
        · cases h
          simp [has, value?, hflag]
  | help => cases h
  | wrong => cases h

theorem has_of_foldlM_add {is : List Item} (his : ∀ item ∈ is, ∀ v, item ≠ .flag .scheme v)
    {sorted sorted' : Sorted} (h : is.foldlM add sorted = .ok sorted') :
    sorted'.has .scheme = sorted.has .scheme := by
  induction is generalizing sorted with
  | nil =>
      cases h
      rfl
  | cons item is ih =>
      obtain ⟨hitem, his⟩ := List.forall_mem_cons.1 his
      rw [List.foldlM_cons] at h
      obtain ⟨next, hnext, hrest⟩ := bind_eq_ok.1 h
      rw [ih his hrest, has_of_add hnext hitem]

end Sorted

/-! ## What the arguments ask for -/

/-- The file and the settings that `run` takes from its arguments. -/
def request (args : List String) : Except NoCommand (String × Settings) :=
  parseWith [.config, .valuePolicy] (fun file sorted => (file, sorted.settings)) args

theorem parseWith_eq_map {α β : Type} {allowed allowed' : List Flag} {args args' : List String}
    {make : String → Sorted → α} {make' : String → Sorted → β} {g : Sorted → Sorted} {f : α → β}
    (hsorted : (items allowed' args').foldlM Sorted.add {}
      = ((items allowed args).foldlM Sorted.add {}).map g)
    (hmake : ∀ sorted, (items allowed args).foldlM Sorted.add {} = .ok sorted →
      (g sorted).file = sorted.file ∧ ∀ file, make' file (g sorted) = f (make file sorted)) :
    parseWith allowed' make' args' = (parseWith allowed make args).map f := by
  unfold parseWith
  rw [hsorted]
  cases hs : (items allowed args).foldlM Sorted.add {} with
  | error e => rfl
  | ok sorted =>
      obtain ⟨hfile, hmake⟩ := hmake sorted hs
      simp only [Except.map, bind, Except.bind, hfile]
      cases sorted.file with
      | none => rfl
      | some file => exact congrArg Except.ok (hmake file)

theorem ne_scheme_of_mem_items {args : List String} {item : Item}
    (h : item ∈ items [.config, .valuePolicy] args) (v : String) : item ≠ .flag .scheme v := by
  rintro rfl
  have hallowed := mem_of_flag_mem_items h
  simp at hallowed

end CommandLine

namespace Command

variable {args : List String}

theorem parse_run (args : List String) :
    parse ("run" :: args) = (request args).map fun r => .run r.1 r.2 :=
  parseWith_eq_map (g := id) (id_map _).symm fun _ _ => ⟨rfl, fun _ => rfl⟩

theorem parse_desugar (h : "--scheme" ∉ args.takeWhile (· ≠ "--")) :
    parse ("desugar" :: args) = (request args).map fun r => .desugar r.1 r.2 false := by
  refine parseWith_eq_map (g := id) ?_ fun sorted hsorted => ⟨rfl, fun file => ?_⟩
  · rw [items_scheme h]
    exact (id_map _).symm
  · have hscheme : sorted.has .scheme = false :=
      Sorted.has_of_foldlM_add (fun item => ne_scheme_of_mem_items) hsorted
    simp only [id_eq, hscheme]

theorem parse_desugar_scheme (h : "--scheme" ∉ args.takeWhile (· ≠ "--")) :
    parse ("desugar" :: "--scheme" :: args)
      = (request args).map fun r => .desugar r.1 r.2 true := by
  refine parseWith_eq_map (g := Sorted.withScheme) ?_ fun sorted _ => ⟨rfl, fun file => ?_⟩
  · -- the first item is `--scheme`, and the others are those of `run`
    have hitems : items [.config, .valuePolicy, .scheme] ("--scheme" :: args)
        = .flag .scheme "" :: items [.config, .valuePolicy] args := by
      rw [← items_scheme h]
      rfl
    rw [hitems, List.foldlM_cons, ← Sorted.foldlM_add_withScheme fun item => ne_scheme_of_mem_items]
    rfl
  · rw [Sorted.settings_withScheme]
    rfl

end Command

end L32
