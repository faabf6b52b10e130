import L32.CommandLine.Directory
import L32.Proofs.Commands
import L32.Proofs.Growth

set_option autoImplicit false

/-! # Whether a printed program can be read again

The command `desugar` prints the desugared program as indented JSON. The text is that of the
program, so the one thing that can keep it from being read is the limit on nesting: what is read
nests at most `nestingLimit` deep, but what is printed may nest deeper, because desugaring turns the
entries of a dictionary into a chain of pairs. `printed_program_read_back_iff_nesting` is the main
statement; it says when the text is read back in terms of the printed program and, as far as this
goes, in terms of the program that was read.

`printed_dictionary_not_read_back` is the smallest dictionary of simple entries whose output is
lost. -/

namespace L32

open CommandLine

/-! ## Reading it again -/

namespace Program

variable {p : Program}

theorem fits_of_read? {text : String} (h : read? text = some p) : p.Fits nestingLimit := by
  obtain ⟨v, _, hv⟩ := Option.bind_eq_some_iff.1 h
  exact fits_of_ofJsonWithin? hv

theorem read?_compact (h : p.Fits nestingLimit) : read? p.toJson.compact = some p := by
  unfold read?
  rw [Json.read?_compact]
  exact ofJsonWithin?_toJson h

/-- The printed text, with the line break at its end, is read as the JSON form of the program. -/
theorem read?_printed (p : Program) : read? (p.toJson.pretty ++ "\n") = ofJson? p.toJson := by
  have hblank : ∀ c ∈ "\n".toList, Json.IsBlank c := by
    intro c hc
    exact Or.inr (Or.inr (Or.inl (by simpa using hc)))
  unfold read?
  rw [Json.read?_pretty_append p.toJson hblank]
  rfl

end Program

/-- **A printed program is read back exactly if it nests within the limit.** Whatever `desugar`
prints is the text of the desugared program `q`. It is read as `q` if `q` nests within the limit,
and refused if `q` nests deeper.

Of the program `p` that was read this depends as follows. Without dictionary literals the output is
always read back. Under the literal policy it is when all dictionaries have at most `k` entries and
`p` stays `2 * k + 2` levels below the limit. A dictionary with so many entries that `2 * n + 10`
exceeds the limit, at any place, makes the output unreadable. -/
theorem printed_program_read_back_iff_nesting {σ : Type} {system : System σ} {s : σ}
    {wording : Wording} {args : List String} {file : String} {settings : Settings}
    (hargs : Command.parse args = .ok (.desugar file settings false))
    (h : (system.invoke wording args s).exitCode = 0) :
    ∃ policy p q, (loadOptions settings).answer system s = .ok ⟨policy⟩
      ∧ (readProgram file).answer system s = .ok p ∧ p.desugar policy = .ok q
      ∧ (q.toJson.depth ≤ nestingLimit →
          Program.read? (system.invoke wording args s).stdout = some q)
      ∧ (nestingLimit < q.toJson.depth →
          Program.read? (system.invoke wording args s).stdout = none)
      ∧ (p.hasDict = false → q.toJson.depth ≤ nestingLimit)
      ∧ (policy = .literal → ∀ k, (∀ f ∈ p.forms, f.expression.DictsWithin k) →
          p.toJson.depth + (2 * k + 2) ≤ nestingLimit → q.toJson.depth ≤ nestingLimit)
      ∧ (∀ f ∈ p.forms, ∀ entries, (Expr.dict entries).Occurs f.expression →
          nestingLimit < 2 * entries.length + 10 → nestingLimit < q.toJson.depth) := by
  rw [System.invoke_of_parse hargs, Command.script_desugar_json] at h ⊢
  obtain ⟨q, hread, hstdout⟩ := (onlyReads_readDesugared file settings).exists_of_exitCode h
  obtain ⟨policy, p, hoptions, hp, hq⟩ := readDesugared_eq_ok_iff.1 hread
  obtain ⟨text, _, htext⟩ := readProgram_eq_ok_iff.1 hp
  rw [Script.join_singleton] at hstdout
  have hfits := Program.fits_of_read? htext
  have hfinite := Program.allFinite_of_desugar hq hfits.allFinite
  refine ⟨policy, p, q, hoptions, hp, hq, ?_, ?_, ?_, ?_, ?_⟩
  · intro hdepth
    rw [hstdout, Program.read?_printed]
    exact Program.ofJsonWithin?_toJson ⟨hdepth, hfinite⟩
  · intro hdepth
    rw [hstdout, Program.read?_printed]
    exact Program.ofJsonWithin?_toJson_eq_none hfinite hdepth
  · intro hdict
    have hlimit : 20 ≤ nestingLimit - 2 := by decide
    exact (Program.fits_of_desugar_of_hasDict_eq_false hq hdict hlimit hfits).depth_le
  · rintro rfl k hk hdepth
    have hlimit : nestingLimit = 127 := rfl
    have hmin := Program.depth_toJson p
    have hp : p.Fits (nestingLimit - (2 * k + 2) - 2 + 2) := ⟨by omega, hfits.allFinite⟩
    have hdeep := (Program.fits_of_desugar_literal hq hk hp (by omega)).depth_le
    omega
  · intro f hf entries hocc hlong
    have hne : entries ≠ [] := by
      rintro rfl
      exact absurd hlong (by decide)
    exact hlong.trans_le (Program.le_depth_of_occurs hq hf hne hocc)

/-! ## Two dictionaries -/

/-- What `desugar` does with a program on the standard input. -/
theorem invoke_desugar_stdin {text : String} {p q : Program} (hp : Program.read? text = some p)
    (hq : p.desugar .literal = .ok q) (d : Directory) :
    (d.invoke ["desugar", "-"] text).exitCode = 0
      ∧ (d.invoke ["desugar", "-"] text).stdout = q.toJson.pretty ++ "\n" := by
  have hparse : Command.parse ["desugar", "-"] = .ok (.desugar "-" {} false) := rfl
  have hread : (readDesugared "-" {}).answer (Directory.system text) d = .ok q :=
    readDesugared_eq_ok_iff.2 ⟨.literal, p, rfl, readProgram_eq_ok_iff.2 ⟨text, rfl, hp⟩, hq⟩
  have hreads := onlyReads_readDesugared "-" {}
  unfold Directory.invoke
  rw [System.invoke_of_parse hparse, Command.script_desugar_json, hreads.run_of_ok hread]
  refine ⟨rfl, ?_⟩
  rw [Run.stdout_append hreads.forall_events, Run.stdout_prints, Script.join_singleton]

def dictionaryProgram (n : Nat) : Program :=
  ⟨[.expr (.dict (List.replicate n ⟨.var "a", .bool true⟩))]⟩

/-- Its JSON form nests eight levels deep, however many entries there are. -/
theorem dictionaryProgram_fits (n : Nat) : (dictionaryProgram n).Fits 8 := by
  refine Program.fits_iff.2 fun f hf => ?_
  rw [List.mem_singleton.1 hf]
  refine Form.fits_expr.2 (Expr.fits_dict.2 fun x hx => ⟨1, rfl, ?_⟩)
  rw [List.eq_of_mem_replicate hx]
  exact ⟨Expr.fits_leaf rfl rfl (by simp [Expr.toJson]),
    Expr.fits_leaf rfl rfl (by simp [Expr.toJson, Json.depth])⟩

theorem read?_dictionaryProgram (n : Nat) :
    Program.read? (dictionaryProgram n).toJson.compact = some (dictionaryProgram n) := by
  have hfits := dictionaryProgram_fits n
  exact Program.read?_compact ⟨hfits.depth_le.trans (by decide), hfits.allFinite⟩

theorem dictionaryProgram_dictsWithin {n : Nat} {f : Form} (hf : f ∈ (dictionaryProgram n).forms) :
    f.expression.DictsWithin n := by
  rw [List.mem_singleton.1 hf]
  intro entries hocc
  cases hocc with
  | here => exact (List.length_replicate).le
  | inside hc hocc =>
      -- keys and values have no parts
      obtain ⟨x, hx, hc⟩ := List.mem_flatMap.1 hc
      rw [List.eq_of_mem_replicate hx] at hc
      simp only [Entry.parts, List.mem_cons, List.not_mem_nil, or_false] at hc
      rcases hc with rfl | rfl <;> cases hocc.eq_of_isLeaf rfl

theorem exists_desugar_dictionaryProgram (n : Nat) :
    ∃ q, (dictionaryProgram n).desugar .literal = .ok q := by
  have hentries : List.Forall₂ (Entry.Related (Expr.Desugars .literal))
      (List.replicate n ⟨.var "a", .bool true⟩) (List.replicate n ⟨.var "a", .bool true⟩) :=
    List.forall₂_same.2 fun x hx => by
      rw [List.eq_of_mem_replicate hx]
      exact ⟨rfl, rfl⟩
  obtain ⟨ds, hds⟩ := (toData_inOrder .literal).exists_ok_iff.2
    (fun x (hx : x ∈ List.replicate n ⟨.var "a", .bool true⟩) => by
      rw [List.eq_of_mem_replicate hx]
      exact ⟨_, rfl⟩)
  have hdict := desugar_dict_eq_ok_iff.2 ⟨_, hentries, lookupCall_eq_ok_iff.2 ⟨ds, hds, rfl⟩⟩
  have hforms : (dictionaryProgram n).desugarForms .literal = .ok ⟨[.expr _]⟩ :=
    Program.desugarForms_eq_ok_iff.2 (.cons (Form.desugar_eq_ok_iff.2 (.expr hdict)) .nil)
  exact ⟨_, Program.desugar_eq_ok_iff.2 ⟨_, hforms, rfl⟩⟩

/-- A dictionary of fifty-eight entries nests deep, and is just read back. -/
theorem printed_program_read_back_fifty_eight :
    ∃ text q, Program.read? text = some (dictionaryProgram 58)
      ∧ ((Directory.mk []).invoke ["desugar", "-"] text).exitCode = 0
      ∧ (dictionaryProgram 58).desugar .literal = .ok q
      ∧ Program.read? ((Directory.mk []).invoke ["desugar", "-"] text).stdout = some q := by
  have hread := read?_dictionaryProgram 58
  obtain ⟨q, hq⟩ := exists_desugar_dictionaryProgram 58
  generalize (dictionaryProgram 58).toJson.compact = text at hread
  have hrun := (invoke_desugar_stdin hread hq ⟨[]⟩).1
  have hparse : Command.parse ["desugar", "-"] = .ok (.desugar "-" {} false) := rfl
  obtain ⟨policy, p, q', hoptions, hp, hq', hback, _, _, hliteral, _⟩ :=
    printed_program_read_back_iff_nesting hparse hrun
  -- the program and the policy are the ones that were given
  have hpolicy : policy = .literal := by
    cases hoptions
    rfl
  obtain ⟨text', htext, hp⟩ := readProgram_eq_ok_iff.1 hp
  cases htext
  rw [hread, Option.some.injEq] at hp
  subst hp hpolicy
  have hdepth := (dictionaryProgram_fits 58).depth_le
  have hwithin := hliteral rfl 58 fun f hf => dictionaryProgram_dictsWithin hf
  refine ⟨text, q', hread, hrun, hq', hback (hwithin ?_)⟩
  have hlimit : nestingLimit = 127 := rfl
  omega

/-- **With fifty-nine entries it is not**, although the program was read. -/
theorem printed_dictionary_not_read_back :
    ∃ text, Program.read? text = some (dictionaryProgram 59)
      ∧ ((Directory.mk []).invoke ["desugar", "-"] text).exitCode = 0
      ∧ Program.read? ((Directory.mk []).invoke ["desugar", "-"] text).stdout = none := by
  obtain ⟨q, hq⟩ := exists_desugar_dictionaryProgram 59
  have hread := read?_dictionaryProgram 59
  obtain ⟨hcode, hstdout⟩ := invoke_desugar_stdin hread hq ⟨[]⟩
  refine ⟨_, hread, hcode, ?_⟩
  have hfinite := Program.allFinite_of_desugar hq (dictionaryProgram_fits 59).allFinite
  have hlength : (List.replicate 59 (Entry.mk (Expr.var "a") (.bool true))).length = 59 :=
    List.length_replicate
  have hdepth := Program.le_depth_of_occurs hq (List.mem_singleton.2 rfl) (by simp) .here
  rw [hlength] at hdepth
  rw [hstdout, Program.read?_printed]
  exact Program.ofJsonWithin?_toJson_eq_none hfinite (Nat.lt_of_lt_of_le (by decide) hdepth)

end L32
