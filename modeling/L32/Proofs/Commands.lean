import L32.CommandLine.Execute
import L32.Proofs.Scripts
import L32.Proofs.Sequence

set_option autoImplicit false

/-! # What the commands read

The commands load options, read a program and work on it before they do anything else: these parts
of them only read. So what they come to is found step by step in one and the same state
(`readProgram_eq_ok_iff`, `readDesugared_eq_ok_iff`). -/

namespace L32

open CommandLine

namespace CommandLine

open Script

variable {σ : Type} {system : System σ} {s : σ} {file : String} {settings : Settings}

theorem onlyReads_readText (file : String) : (readText file).OnlyReads := by
  unfold readText
  split
  · exact ⟨rfl, fun answer => .ensure _ answer⟩
  · exact ⟨rfl, fun answer => .ensure _ answer⟩

theorem onlyReads_readProgram (file : String) : (readProgram file).OnlyReads := by
  refine (onlyReads_readText file).bind fun text => ?_
  cases Program.read? text <;> trivial

theorem onlyReads_readOptions (config : Option String) : (readOptions config).OnlyReads := by
  cases config with
  | none => trivial
  | some path =>
      refine Takes.bind ⟨rfl, fun answer => .ensure _ answer⟩ fun text => ?_
      exact .ensure _ (Options.read text)

theorem onlyReads_loadOptions (settings : Settings) : (loadOptions settings).OnlyReads := by
  refine (onlyReads_readOptions settings.config).bind fun options => ?_
  trivial

theorem onlyReads_readDesugared (file : String) (settings : Settings) :
    (readDesugared file settings).OnlyReads := by
  refine (onlyReads_loadOptions settings).bind fun options => ?_
  exact (onlyReads_readProgram file).bind fun p => .ensure _ (p.desugar options.valuePolicy)

theorem readText_answer (system : System σ) (s : σ) (file : String) :
    (readText file).answer system s
      = (if file = stdinName then system.stdin else system.read s file).mapError .file := by
  unfold readText
  split
  · exact answer_ensure _ system.stdin s
  · exact answer_ensure _ (system.read s file) s

theorem readProgram_eq_ok_iff {p : Program} :
    (readProgram file).answer system s = .ok p ↔
      ∃ text, (if file = stdinName then system.stdin else system.read s file) = .ok text
        ∧ Program.read? text = some p := by
  rw [readProgram, (onlyReads_readText file).answer_bind, bind_eq_ok, readText_answer]
  simp only [mapError_eq_ok]
  refine exists_congr fun text => and_congr_right fun _ => ?_
  cases Program.read? text <;> simp

theorem readDesugared_eq_ok_iff {q : Program} :
    (readDesugared file settings).answer system s = .ok q ↔
      ∃ policy p, (loadOptions settings).answer system s = .ok ⟨policy⟩
        ∧ (readProgram file).answer system s = .ok p ∧ p.desugar policy = .ok q := by
  rw [readDesugared, (onlyReads_loadOptions settings).answer_bind]
  simp only [bind_eq_ok, (onlyReads_readProgram file).answer_bind, answer_ensure, mapError_eq_ok]
  constructor
  · rintro ⟨⟨policy⟩, hoptions, p, hp, hq⟩
    exact ⟨policy, p, hoptions, hp, hq⟩
  · rintro ⟨policy, p, hoptions, hp, hq⟩
    exact ⟨⟨policy⟩, hoptions, p, hp, hq⟩

theorem onlyReads_readJavaScript (file : String) : (readJavaScript file).OnlyReads :=
  (onlyReads_readProgram file).bind fun p => .ensure _ p.toJavaScript

theorem readJavaScript_eq_ok_iff {text : String} :
    (readJavaScript file).answer system s = .ok text ↔
      ∃ p, (readProgram file).answer system s = .ok p ∧ p.toJavaScript = .ok text := by
  rw [readJavaScript, (onlyReads_readProgram file).answer_bind, bind_eq_ok]
  simp only [answer_ensure, mapError_eq_ok]

end CommandLine

namespace Command

/-! ## The commands that print -/

theorem script_desugar_json (file : String) (settings : Settings) :
    (desugar file settings false).script
      = readDesugared file settings >>= fun q => .printAll [q.toJson.pretty ++ "\n"] := rfl

theorem script_desugar_scheme (file : String) (settings : Settings) :
    (desugar file settings true).script
      = readDesugared file settings >>= fun q =>
          .printAll (q.forms.map fun f => f.toScheme ++ "\n") := rfl

theorem script_run (file : String) (settings : Settings) :
    (run file settings).script
      = readDesugared file settings >>= fun q => .printAll [q.toScheme ++ "\n"] := rfl

end Command

theorem System.invoke_of_parse {σ : Type} {system : System σ} {s : σ} {wording : Wording}
    {args : List String} {command : Command} (h : Command.parse args = .ok command) :
    system.invoke wording args s = command.script.run system s := by
  rw [invoke, invocation, h]

end L32
