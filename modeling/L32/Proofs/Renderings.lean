import L32.CommandLine.Directory
import L32.Proofs.Arguments
import L32.Proofs.Commands
import L32.Proofs.Output
import L32.Proofs.Scheme.Lines

set_option autoImplicit false

/-! # Three renderings of one program

A desugared program can be had in three forms: `desugar` prints its JSON, `desugar --scheme` prints
each of its forms in Scheme's notation, and `run` prints the whole of it as one Scheme form. The
three take the same request from their arguments and differ in the texts alone (`Renders`). So they
fail together, with the same failure and message, or print the same program. The main statement is
`renderings_agree`. It also says how many lines there are: a form is a line, unless one of the names
that the program was written with holds a line break. -/

namespace L32

open CommandLine

/-! ## Executing the three commands -/

/-- The commands that print a desugared program. -/
def renderings : List (List String) := [["desugar"], ["desugar", "--scheme"], ["run"]]

/-- A command line that prints the desugared program that `args` ask for, as the given texts. -/
def Renders (args' args : List String) (texts : Program → List String) : Prop :=
  ∃ make : String × Settings → Command, Command.parse args' = (request args).map make
    ∧ ∀ r, (make r).script = readDesugared r.1 r.2 >>= fun q => .printAll (texts q)

namespace Renders

variable {args : List String}

theorem run (args : List String) :
    Renders ("run" :: args) args fun q => [q.toScheme ++ "\n"] :=
  ⟨_, Command.parse_run args, fun r => Command.script_run r.1 r.2⟩

theorem desugar (h : "--scheme" ∉ args.takeWhile (· ≠ "--")) :
    Renders ("desugar" :: args) args fun q => [q.toJson.pretty ++ "\n"] :=
  ⟨_, Command.parse_desugar h, fun r => Command.script_desugar_json r.1 r.2⟩

theorem desugar_scheme (h : "--scheme" ∉ args.takeWhile (· ≠ "--")) :
    Renders ("desugar" :: "--scheme" :: args) args
      fun q => q.forms.map fun f => f.toScheme ++ "\n" :=
  ⟨_, Command.parse_desugar_scheme h, fun r => Command.script_desugar_scheme r.1 r.2⟩

/-- What is true of the command lines that print what `args` ask for is true of the three. -/
theorem forall_renderings (h : "--scheme" ∉ args.takeWhile (· ≠ "--")) {P : List String → Prop}
    (hP : ∀ args' texts, Renders args' args texts → P args') :
    ∀ command ∈ renderings, P (command ++ args) := by
  simp only [renderings, List.forall_mem_cons]
  exact ⟨hP _ _ (desugar h), hP _ _ (desugar_scheme h), hP _ _ (run args), List.forall_mem_nil _⟩

section Invoke

variable {σ : Type} (system : System σ) (wording : Wording) (s : σ) {args' : List String}
  {texts : Program → List String} {r : String × Settings}

theorem invoke_of_refused (h : Renders args' args texts) {reason : NoCommand}
    (hargs : request args = .error reason) :
    system.invoke wording args' s = (reason.script wording args').run system s := by
  obtain ⟨make, hparse, _⟩ := h
  rw [hargs] at hparse
  rw [System.invoke, invocation, hparse]
  rfl

theorem invoke_of_request (h : Renders args' args texts) (hargs : request args = .ok r) :
    system.invoke wording args' s
      = (readDesugared r.1 r.2 >>= fun q => .printAll (texts q)).run system s := by
  obtain ⟨make, hparse, hscript⟩ := h
  rw [hargs] at hparse
  rw [System.invoke_of_parse hparse, hscript]

theorem invoke_of_fault (h : Renders args' args texts) {fault : Fault}
    (hargs : request args = .ok r)
    (hfault : (readDesugared r.1 r.2).answer system s = .error fault) :
    system.invoke wording args' s
      = ⟨((readDesugared r.1 r.2).run system s).events, s, .error fault⟩ := by
  rw [h.invoke_of_request system wording s hargs, (onlyReads_readDesugared r.1 r.2).run_of_error hfault]

theorem invoke_of_ok (h : Renders args' args texts) {q : Program}
    (hargs : request args = .ok r) (hq : (readDesugared r.1 r.2).answer system s = .ok q) :
    ((system.invoke wording args' s).exitCode = 0 ∧ (system.invoke wording args' s).state = s)
      ∧ (system.invoke wording args' s).stdout = String.join (texts q) := by
  have hreads := onlyReads_readDesugared r.1 r.2
  rw [h.invoke_of_request system wording s hargs, hreads.run_of_ok hq]
  refine ⟨⟨rfl, rfl⟩, ?_⟩
  rw [Run.stdout_append hreads.forall_events, Run.stdout_prints]

end Invoke

end Renders

/-! ## The texts -/

/-- In front of the first text there is a separator as well. -/
theorem leadWith_eq_append_joinWith {separator : String} {ts : List String} (h : ts ≠ []) :
    leadWith separator ts = separator ++ joinWith separator ts := by
  cases ts with
  | nil => exact absurd rfl h
  | cons t ts => rw [leadWith, joinWith_cons_eq_append, String.append_assoc]

namespace Program

variable {policy : ValuePolicy} {p q : Program}

theorem length_forms_of_desugar (h : p.desugar policy = .ok q) :
    q.forms.length = p.forms.length + 1 := by
  obtain ⟨q', hq', rfl⟩ := desugar_eq_ok_iff.1 h
  rw [List.length_cons, (desugarForms_eq_ok_iff.1 hq').length_eq]

/-- The text of a program with at least one form. -/
theorem toScheme_eq_joinWith (h : q.forms ≠ []) :
    q.toScheme = "(L32 " ++ joinWith " " (q.forms.map Form.toScheme) ++ ")" := by
  have hspace : "(L32 " = "(L32" ++ " " := rfl
  rw [toScheme, leadWith_eq_append_joinWith (by simpa using h), hspace]
  simp only [String.append_assoc]

/-- **Each form of a desugared program is a line** if no name in the program holds a line break. -/
theorem oneLine_of_desugar (h : p.desugar policy = .ok q) (hp : p.AllNames OneLine) {f : Form}
    (hf : f ∈ q.forms) : OneLine f.toScheme := by
  have hadded : ∀ name ∈ addedNames, (Datum.symbol name).Named OneLine := by
    show ∀ name ∈ addedNames, OneLine name
    decide
  exact Form.oneLine_toScheme_iff.2 (allAtoms_of_desugar hadded h hp f hf)

end Program

/-! ## The main statement -/

/-- **The three renderings agree**, on every system and in every state of it. Give the same
arguments, without `--scheme` and without asking for help, to `desugar`, to `desugar --scheme` and to
`run`.

Either all three fail with the same failure and print nothing. They also say the same, unless the
arguments are malformed: then each explains its own usage.

Or all three print the same program `q`, which is the desugared form of the program that was read:
the first its JSON, the second the texts of its forms with a line break after each, and the third
these same texts with blanks between them, as one list headed by `L32`. There is one form more than
in the program that was read. If no name in that program holds a line break, each form is a line of
what `desugar --scheme` prints, whatever its strings hold. -/
theorem renderings_agree {σ : Type} (system : System σ) (wording : Wording) (s : σ)
    (args : List String) (hscheme : "--scheme" ∉ args.takeWhile (· ≠ "--"))
    (hhelp : Command.parse ("run" :: args) ≠ .error .help) :
    ((∃ failure, ∀ command ∈ renderings,
          (system.invoke wording (command ++ args) s).failure = some failure
          ∧ (system.invoke wording (command ++ args) s).stdout = ""
          ∧ (system.invoke wording (command ++ args) s).state = s)
        ∧ ((∃ message, ∀ command ∈ renderings,
              (system.invoke wording (command ++ args) s).message wording = some message)
          ∨ Command.parse ("run" :: args) = .error .malformed ∧ ∀ command ∈ renderings,
              (system.invoke wording (command ++ args) s).message wording
                = some (wording.usage (command ++ args))))
    ∨ ∃ file settings policy p q,
        Command.parse ("run" :: args) = .ok (.run file settings)
        ∧ (loadOptions settings).answer system s = .ok ⟨policy⟩
        ∧ (readProgram file).answer system s = .ok p ∧ p.desugar policy = .ok q
        ∧ (∀ command ∈ renderings,
            (system.invoke wording (command ++ args) s).exitCode = 0
            ∧ (system.invoke wording (command ++ args) s).state = s)
        ∧ (system.invoke wording ("desugar" :: args) s).stdout = q.toJson.pretty ++ "\n"
        ∧ (system.invoke wording ("desugar" :: "--scheme" :: args) s).stdout
          = String.join (q.forms.map fun f => f.toScheme ++ "\n")
        ∧ (system.invoke wording ("run" :: args) s).stdout
          = "(L32 " ++ joinWith " " (q.forms.map Form.toScheme) ++ ")" ++ "\n"
        ∧ q.forms.length = p.forms.length + 1
        ∧ ((p.AllNames fun name => '\n' ∉ name.toList) →
            (system.invoke wording ("desugar" :: "--scheme" :: args) s).stdout.toList.splitOn '\n'
              = (q.forms.map fun f => f.toScheme.toList) ++ [[]]) := by
  have hparse := Command.parse_run args
  cases hargs : request args with
  | error reason =>
      rw [hargs] at hparse
      cases reason with
      | help => exact absurd hparse hhelp
      | invalidPolicy name =>
          -- the fault holds the name of the policy and not that of the command
          have hfails := Renders.forall_renderings hscheme fun args' texts h =>
            Run.fails_of_eq (h.invoke_of_refused system wording s hargs)
              (List.forall_mem_nil _) wording
          exact Or.inl ⟨⟨_, fun command hcommand => (hfails command hcommand).1⟩,
            Or.inl ⟨_, fun command hcommand => (hfails command hcommand).2⟩⟩
      | malformed =>
          have hfails := Renders.forall_renderings hscheme fun args' texts h =>
            Run.fails_of_eq (h.invoke_of_refused system wording s hargs)
              (List.forall_mem_nil _) wording
          exact Or.inl ⟨⟨_, fun command hcommand => (hfails command hcommand).1⟩,
            Or.inr ⟨hparse, fun command hcommand => (hfails command hcommand).2⟩⟩
  | ok r =>
      rw [hargs] at hparse
      cases hanswer : (readDesugared r.1 r.2).answer system s with
      | error fault =>
          have hfails := Renders.forall_renderings hscheme fun args' texts h =>
            Run.fails_of_eq (h.invoke_of_fault system wording s hargs hanswer)
              (onlyReads_readDesugared r.1 r.2).forall_events wording
          exact Or.inl ⟨⟨_, fun command hcommand => (hfails command hcommand).1⟩,
            Or.inl ⟨_, fun command hcommand => (hfails command hcommand).2⟩⟩
      | ok q =>
          obtain ⟨policy, p, hoptions, hp, hq⟩ := readDesugared_eq_ok_iff.1 hanswer
          have hlength := Program.length_forms_of_desugar hq
          have hne : q.forms ≠ [] := List.ne_nil_of_length_eq_add_one hlength
          have hsucceeds := Renders.forall_renderings hscheme fun args' texts h =>
            (h.invoke_of_ok system wording s hargs hanswer).1
          have hjson := ((Renders.desugar hscheme).invoke_of_ok system wording s hargs hanswer).2
          have hforms :=
            ((Renders.desugar_scheme hscheme).invoke_of_ok system wording s hargs hanswer).2
          have hwhole := ((Renders.run args).invoke_of_ok system wording s hargs hanswer).2
          refine Or.inr ⟨r.1, r.2, policy, p, q, hparse, hoptions, hp, hq, hsucceeds, ?_, hforms, ?_,
            hlength, fun hnames => ?_⟩
          · rw [hjson, Script.join_singleton]
          · rw [hwhole, Script.join_singleton, Program.toScheme_eq_joinWith hne]
          · rw [hforms]
            have hlines := splitOn_lines (q.forms.map Form.toScheme)
            rw [List.map_map, List.map_map, List.forall_mem_map] at hlines
            exact hlines fun f hf => Program.oneLine_of_desugar hq hnames hf

def twoLineProgram : Program := ⟨[.define "s" (.str "a\nb")]⟩

theorem read?_twoLineProgram :
    Program.read? twoLineProgram.toJson.compact = some twoLineProgram := by
  have hfits : twoLineProgram.Fits 5 := Program.fits_iff.2 fun f hf => by
    rw [List.mem_singleton.1 hf]
    exact Form.fits_define.2 (Expr.fits_leaf rfl rfl (by simp [Expr.toJson]))
  exact Program.read?_compact ⟨hfits.depth_le.trans (by decide), hfits.allFinite⟩

/-- The string takes one line, and the definition of the lookup procedure another. -/
theorem renderings_agree_two_lines :
    ∃ text q, Program.read? text = some twoLineProgram
      ∧ "--scheme" ∉ ["-"].takeWhile (· ≠ "--")
      ∧ Command.parse ["run", "-"] ≠ .error .help
      ∧ twoLineProgram.desugar .literal = .ok q ∧ q.forms.length = 2
      ∧ ((Directory.mk []).invoke ["desugar", "--scheme", "-"] text).stdout.toList.splitOn '\n'
        = (q.forms.map fun f => f.toScheme.toList) ++ [[]] := by
  have hread := read?_twoLineProgram
  generalize twoLineProgram.toJson.compact = text at hread
  have hscheme : "--scheme" ∉ ["-"].takeWhile (· ≠ "--") := by decide
  have hrun : Command.parse ["run", "-"] = .ok (.run "-" {}) := rfl
  have hhelp : Command.parse ["run", "-"] ≠ .error .help := by simp [hrun]
  obtain ⟨⟨failure, hfails⟩, _⟩ | ⟨file, settings, policy, p, q, hargs, hoptions, hp, hq, _, _, _, _,
      hlength, hlines⟩ :=
    renderings_agree (Directory.system text) plainWording (Directory.mk []) ["-"] hscheme hhelp
  · -- the program is read and has no dictionary literals, so nothing fails
    have hdesugar : twoLineProgram.desugar .literal
        = .ok ⟨[lookupDefinition, .define "s" (.str "a\nb")]⟩ := rfl
    obtain ⟨_, hresult⟩ := Run.exitCode_eq_zero_iff.1 (invoke_desugar_stdin hread hdesugar ⟨[]⟩).1
    obtain ⟨hfailure, _⟩ := hfails ["desugar"] List.mem_cons_self
    have hnone : ((Directory.mk []).invoke ["desugar", "-"] text).failure = none := by
      rw [Run.failure, Run.fault, hresult]
      rfl
    cases hnone.symm.trans hfailure
  · rw [hrun] at hargs
    cases hargs
    cases hoptions
    obtain ⟨text', htext, hp⟩ := readProgram_eq_ok_iff.1 hp
    cases htext
    rw [hread, Option.some.injEq] at hp
    subst hp
    have hnames : twoLineProgram.AllNames OneLine := by
      refine List.forall_mem_singleton.2 ⟨?_, Expr.allAtoms_str.2 trivial⟩
      show OneLine "s"
      decide
    exact ⟨text, q, hread, hscheme, hhelp, hq, hlength, hlines hnames⟩

end L32
