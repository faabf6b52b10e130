import L32.CommandLine.Directory
import L32.Proofs.Commands
import L32.Proofs.Output

set_option autoImplicit false

/-! # What an invocation leaves behind

An invocation that fails has printed nothing and changed no file. This is a matter of order: options
are loaded, texts are decoded and programs are worked on, each of which may fail, before the first
text is printed and before the file is written, and the file is written before that is announced
(`outputsLast_invocation`). It holds on every system, whatever paths mean there.

Of the commands that succeed only `unparse` writes a file, and the file is not the one that the
program was read from. As a text, the name of the JavaScript file differs from the name of the
program's file (`OutputNamed.ne`). But two different paths may lead to the same file, as `p.json` and
`./p.json` do. Where there are no links, these two do not: paths that differ only in what follows
their last slash lead to names that differ in the same way (`exists_front_of_resolve?`), and the two
endings are different. The main statement is `invocation_touches_only_its_output`. -/

namespace L32

open CommandLine

/-! ## The name of the JavaScript file -/

/-- How the JavaScript file is named after the file of the program: `.json` at the end becomes
`.js`, and to any other name `.js` is added. A program on the standard input goes to `output.js`. -/
inductive OutputNamed : String → String → Prop
  | stdin : OutputNamed "-" "output.js"
  | replaced (stem : String) : OutputNamed (stem ++ ".json") (stem ++ ".js")
  | added {file : String} (hstdin : file ≠ "-") (hjson : ∀ stem, file ≠ stem ++ ".json") :
      OutputNamed file (file ++ ".js")

theorem stem?_eq_some_iff {name stem : String} :
    stem? name = some stem ↔ name = stem ++ ".json" := by
  constructor
  · intro h
    unfold stem? at h
    split at h
    · rename_i rest hrest
      cases h
      rw [← String.toList_inj, String.toList_append, String.toList_ofList,
        ← List.reverse_reverse name.toList, hrest]
      simp
    · cases h
  · rintro rfl
    have hend : ".json".toList = ['.', 'j', 's', 'o', 'n'] := rfl
    unfold stem?
    rw [String.toList_append, hend]
    simp

theorem outputNamed_outputName (file : String) : OutputNamed file (outputName file) := by
  unfold outputName
  by_cases hstdin : file = stdinName
  · rw [if_pos hstdin, hstdin]
    exact .stdin
  · rw [if_neg hstdin]
    cases hstem : stem? file with
    | some stem =>
        rw [stem?_eq_some_iff.1 hstem]
        exact .replaced stem
    | none =>
        refine .added hstdin fun stem hfile => ?_
        rw [stem?_eq_some_iff.2 hfile] at hstem
        cases hstem

/-- The two names have a common beginning and different endings, without a slash in them. -/
theorem OutputNamed.exists_endings {file out : String} (h : OutputNamed file out)
    (hstdin : file ≠ "-") :
    ∃ stem s s', file = stem ++ s ∧ out = stem ++ s' ∧ s ≠ s'
      ∧ '/' ∉ s.toList ∧ '/' ∉ s'.toList := by
  cases h with
  | stdin => exact absurd rfl hstdin
  | replaced stem => exact ⟨stem, ".json", ".js", rfl, rfl, by decide, by decide, by decide⟩
  | added _ _ =>
      exact ⟨file, "", ".js", String.append_empty.symm, rfl, by decide, by decide, by decide⟩

theorem OutputNamed.ne {file out : String} (h : OutputNamed file out) : out ≠ file := by
  intro heq
  cases h with
  | stdin => exact absurd heq (by decide)
  | replaced stem => exact absurd (String.append_right_inj stem |>.1 heq) (by decide)
  | added _ _ =>
      have hadded : file ++ ".js" = file ++ "" := by rw [heq, String.append_empty]
      exact absurd (String.append_right_inj file |>.1 hadded) (by decide)

/-! ## Paths and the names they lead to -/

theorem exists_joinWith_append (separator : String) (ts : List String) :
    ∃ front, ∀ t, joinWith separator (ts ++ [t]) = front ++ t := by
  induction ts with
  | nil => exact ⟨"", fun t => String.empty_append.symm⟩
  | cons u us ih =>
      obtain ⟨front, hfront⟩ := ih
      refine ⟨u ++ separator ++ front, fun t => ?_⟩
      rw [String.append_assoc, ← hfront t]
      -- behind the first text there is always another one
      cases us with
      | nil => rfl
      | cons v vs => rfl

namespace Directory

theorem splitPath_of_not_mem {cs : List Char} (h : '/' ∉ cs) : splitPath cs = [cs] := by
  induction cs with
  | nil => rfl
  | cons c cs ih =>
      rw [List.mem_cons, not_or] at h
      unfold splitPath
      rw [ih h.2]
      simp only [if_neg (Ne.symm h.1)]

/-- What is added behind a path goes to its last part, if there is no slash in it. -/
theorem exists_splitPath_append (cs : List Char) :
    ∃ parts last, ∀ ds, '/' ∉ ds → splitPath (cs ++ ds) = parts ++ [last ++ ds] := by
  induction cs with
  | nil => exact ⟨[], [], fun ds hds => splitPath_of_not_mem hds⟩
  | cons c cs ih =>
      obtain ⟨parts, last, hparts⟩ := ih
      by_cases hc : c = '/'
      · refine ⟨[] :: parts, last, fun ds hds => ?_⟩
        rw [List.cons_append, splitPath, hparts ds hds]
        cases parts with
        | nil => simp [hc]
        | cons part parts => simp [hc]
      · cases parts with
        | nil =>
            refine ⟨[], c :: last, fun ds hds => ?_⟩
            rw [List.cons_append, splitPath, hparts ds hds]
            simp [hc]
        | cons part parts =>
            refine ⟨(c :: part) :: parts, last, fun ds hds => ?_⟩
            rw [List.cons_append, splitPath, hparts ds hds]
            simp [hc]

/-- The name of a file begins with that of its directory. -/
theorem Place.exists_name_down (place : Place) :
    ∃ front, ∀ part, (place.down part).name = front ++ String.ofList part := by
  obtain ⟨front, hfront⟩ := exists_joinWith_append "/" (place.names.reverse.map String.ofList)
  refine ⟨(if place.fromRoot then "/" else "") ++ front, fun part => ?_⟩
  rw [String.append_assoc, ← hfront, name, down, List.reverse_cons, List.map_append,
    List.map_singleton]

theorem head?_append_eq_slash_iff {cs ds : List Char} (h : '/' ∉ ds) :
    (cs ++ ds).head? = some '/' ↔ cs.head? = some '/' := by
  cases cs with
  | cons c cs => rfl
  | nil =>
      constructor
      · intro hhead
        exact absurd (List.mem_of_head? hhead) h
      · intro hhead
        cases hhead

/-- **Paths with a common beginning lead to names with a common beginning**, as long as what is
added has no slash in it: they pass the same directories. -/
theorem exists_front_of_resolve? (d : Directory) (stem : String) :
    ∃ front, ∀ s name, '/' ∉ s.toList → d.resolve? (stem ++ s) = some name → name = front ++ s := by
  obtain ⟨parts, last, hparts⟩ := exists_splitPath_append stem.toList
  -- the directories on the way do not depend on what is added
  have hresolve : ∀ s : String, '/' ∉ s.toList → d.resolve? (stem ++ s)
      = (parts.foldlM d.enter? ⟨stem.toList.head? = some '/', []⟩).bind fun place =>
          if isProperPart (last ++ s.toList) then some (place.down (last ++ s.toList)).name
          else none := by
    intro s hs
    simp only [resolve?, String.toList_append, hparts s.toList hs, head?_append_eq_slash_iff hs,
      List.dropLast_concat, List.getLast?_concat]
    rfl
  cases hplace : parts.foldlM d.enter? ⟨stem.toList.head? = some '/', []⟩ with
  | none =>
      refine ⟨"", fun s name hs h => ?_⟩
      rw [hresolve s hs, hplace] at h
      cases h
  | some place =>
      obtain ⟨front, hfront⟩ := place.exists_name_down
      refine ⟨front ++ String.ofList last, fun s name hs h => ?_⟩
      rw [hresolve s hs, hplace, Option.bind_some, Option.ite_none_right_eq_some,
        Option.some.injEq] at h
      rw [← h.2, hfront, String.append_assoc, String.ofList_append, String.ofList_toList]

theorem resolve?_ne_of_endings {d : Directory} {stem s s' : String} (hne : s ≠ s')
    (hs : '/' ∉ s.toList) (hs' : '/' ∉ s'.toList) {name : String}
    (h : d.resolve? (stem ++ s') = some name) : d.resolve? (stem ++ s) ≠ some name := by
  intro h'
  obtain ⟨front, hfront⟩ := d.exists_front_of_resolve? stem
  have hname := hfront s name hs h'
  rw [hfront s' name hs' h] at hname
  exact hne ((String.append_right_inj front).1 hname).symm

/-! ## Writing a file -/

/-- Of two directories, that the second is the first with one file written: the file has the new
content, and all others are as they were. -/
def Wrote (before : Directory) (name text : String) (later : Directory) : Prop :=
  ∀ f, f ∈ later.files ↔ (f.1 ≠ name ∧ f ∈ before.files) ∨ f = (name, text)

theorem wrote_of_write? {d d' : Directory} {path text : String}
    (h : d.write? path text = some d') : ∃ name, d.resolve? path = some name ∧ d.Wrote name text d' := by
  obtain ⟨name, hname, h⟩ := Option.bind_eq_some_iff.1 h
  refine ⟨name, hname, fun f => ?_⟩
  split at h
  · cases h
  · cases h
    simp [save, List.mem_append, List.mem_filter, and_comm]

end Directory

/-- The path of the JavaScript file never leads to the file of the program, nor to a file with the
name that stands for the standard input. -/
theorem OutputNamed.resolve?_ne {d : Directory} {file out name : String} (h : OutputNamed file out)
    (hname : d.resolve? out = some name) : d.resolve? file ≠ some name := by
  by_cases hstdin : file = "-"
  · intro hfile
    rw [hstdin] at h hfile
    have hout : out = "output.js" := by
      generalize hdash : "-" = dash at h
      cases h with
      | stdin => rfl
      | replaced stem =>
          have hend := congrArg stem? hdash
          rw [stem?_eq_some_iff.2 (rfl : stem ++ ".json" = stem ++ ".json")] at hend
          exact absurd hend (by simp [stem?])
      | added hne _ => exact absurd hdash.symm hne
    have hdash : d.resolve? "-" = some "-" := rfl
    have hjs : d.resolve? "output.js" = some "output.js" := rfl
    rw [hdash] at hfile
    rw [hout, hjs, ← hfile] at hname
    exact absurd hname (by decide)
  · obtain ⟨stem, s, s', rfl, rfl, hne, hs, hs'⟩ := h.exists_endings hstdin
    exact Directory.resolve?_ne_of_endings hne hs hs' hname

/-! ## The order of steps -/

open Script

theorem Command.outputsLast_script (command : Command) : command.script.OutputsLast := by
  cases command with
  | desugar file settings scheme =>
      refine OutputsLast.bind (onlyReads_readDesugared file settings) fun q => ?_
      cases scheme with
      | true => exact (NeverFails.printAll _).outputsLast
      | false => exact (NeverFails.printAll _).outputsLast
  | run file settings =>
      refine OutputsLast.bind (onlyReads_readDesugared file settings) fun q => ?_
      exact (NeverFails.printAll _).outputsLast
  | unparse file toStdout =>
      refine OutputsLast.bind (onlyReads_readJavaScript file) fun text => ?_
      cases toStdout with
      | true => exact (NeverFails.printAll _).outputsLast
      | false =>
          -- a file that was written is announced, one that was refused is the last fault
          exact ⟨NeverFails.printAll _, fun message => trivial⟩

/-- **Whatever can fail in an invocation comes before its first output.** -/
theorem outputsLast_invocation (wording : Wording) (args : List String) :
    (invocation wording args).OutputsLast := by
  unfold invocation
  cases Command.parse args with
  | ok command => exact command.outputsLast_script
  | error reason =>
      cases reason with
      | help => exact (NeverFails.printAll _).outputsLast
      | invalidPolicy name => trivial
      | malformed => trivial

/-- Only `unparse` without `--stdout` writes a file. -/
theorem takes_invocation {wording : Wording} {args : List String}
    (h : ∀ file, Command.parse args ≠ .ok (.unparse file false)) :
    (invocation wording args).Takes fun e => e.written? = none := by
  have hprint : ∀ ts, (printAll ts).Takes fun e => e.written? = none :=
    fun ts => .printAll fun _ _ => rfl
  unfold invocation
  cases hparse : Command.parse args with
  | error reason =>
      cases reason with
      | help => exact hprint _
      | invalidPolicy name => trivial
      | malformed => trivial
  | ok command =>
      cases command with
      | desugar file settings scheme =>
          refine Takes.bind (onlyReads_readDesugared file settings).writesNothing fun q => ?_
          cases scheme with
          | true => exact hprint _
          | false => exact hprint _
      | run file settings =>
          exact Takes.bind (onlyReads_readDesugared file settings).writesNothing fun q => hprint _
      | unparse file toStdout =>
          have hreads := (onlyReads_readJavaScript file).writesNothing
          cases toStdout with
          | true => exact Takes.bind hreads fun text => hprint _
          | false => exact absurd hparse (h file)

/-- To write a file and to say so. -/
theorem run_write_announced {σ : Type} (system : System σ) (out text : String) (s : σ) :
    (write out text (ensure .file) >>= fun () => printAll ["Wrote: " ++ out ++ "\n"]).run system s
      = match system.write s out text with
        | .ok s' => ⟨[.write out text, .print ("Wrote: " ++ out ++ "\n")], s', .ok ()⟩
        | .error message => ⟨[], s, .error (.file message)⟩ := by
  show run system (write out text fun answer =>
    (ensure .file answer).bind fun () => printAll ["Wrote: " ++ out ++ "\n"]) s = _
  rw [run]
  cases system.write s out text <;> rfl

/-- What `unparse` does without `--stdout`: it reads, it writes, and it says so. -/
theorem Command.run_unparse {σ : Type} (system : System σ) (file : String) (s : σ) :
    (unparse file false).script.run system s
      = match (readJavaScript file).answer system s with
        | .error fault => ⟨((readJavaScript file).run system s).events, s, .error fault⟩
        | .ok text =>
          match system.write s (outputName file) text with
          | .error message =>
            ⟨((readJavaScript file).run system s).events, s, .error (.file message)⟩
          | .ok s' => ⟨((readJavaScript file).run system s).events
              ++ [.write (outputName file) text, .print ("Wrote: " ++ outputName file ++ "\n")],
            s', .ok ()⟩ := by
  have hscript : (unparse file false).script = readJavaScript file >>= fun text =>
      write (outputName file) text (ensure .file) >>= fun () =>
        printAll ["Wrote: " ++ outputName file ++ "\n"] := rfl
  unfold answer
  rw [hscript, run_bind, Run.andThen, (onlyReads_readJavaScript file).state_eq]
  cases ((readJavaScript file).run system s).result with
  | error fault => rfl
  | ok text =>
      simp only [run_write_announced]
      cases system.write s (outputName file) text with
      | error message => simp only [List.append_nil]
      | ok s' => rfl

theorem Command.exists_of_unparse {σ : Type} {system : System σ} {s : σ} {file : String}
    (h : ((unparse file false).script.run system s).exitCode = 0) :
    ∃ text s', (readJavaScript file).answer system s = .ok text
      ∧ system.write s (outputName file) text = .ok s' := by
  rw [run_unparse] at h
  cases htext : (readJavaScript file).answer system s with
  | error fault =>
      rw [htext] at h
      exact absurd h fault.exitCode_ne_zero
  | ok text =>
      cases hwrite : system.write s (outputName file) text with
      | error message =>
          simp only [htext, hwrite] at h
          exact absurd h (Fault.file message).exitCode_ne_zero
      | ok s' => exact ⟨text, s', rfl, hwrite⟩

theorem Directory.system_write_eq_ok_iff {d d' : Directory} {stdin path text : String} :
    (system stdin).write d path text = .ok d' ↔ d.write? path text = some d' := by
  show (d.write? path text).elim _ _ = _ ↔ _
  cases d.write? path text <;> simp

/-! ## The main statement -/

/-- **A failing invocation has no effect, and a successful one touches at most one file, which is
never its input**, on every system and in every state of it.

* If the exit code is not zero, nothing has been printed and no file has been written: the standard
  input and files may have been read, and that is all.
* Unless the command is `unparse` without `--stdout`, no file is written in any case.
* If it is and the exit code is zero, one file is written. It holds the JavaScript of the program
  that was read, and is named after the program's file. The two names differ, and where there are no
  links, they are also the names of different files, on whatever way the paths lead to them. -/
theorem invocation_touches_only_its_output {σ : Type} (system : System σ) (wording : Wording)
    (args : List String) (s : σ) :
    ((system.invoke wording args s).exitCode ≠ 0 →
      (∀ e ∈ (system.invoke wording args s).events, e.isInput = true)
      ∧ (system.invoke wording args s).stdout = ""
      ∧ (system.invoke wording args s).written = []
      ∧ (system.invoke wording args s).state = s)
    ∧ ((∀ file, Command.parse args ≠ .ok (.unparse file false)) →
      (system.invoke wording args s).written = [] ∧ (system.invoke wording args s).state = s)
    ∧ ∀ file, Command.parse args = .ok (.unparse file false) →
      (system.invoke wording args s).exitCode = 0 →
      ∃ source p text out,
        (if file = "-" then system.stdin else system.read s file) = .ok source
        ∧ Program.read? source = some p ∧ p.toJavaScript = .ok text
        ∧ OutputNamed file out ∧ out ≠ file
        ∧ (system.invoke wording args s).written = [(out, text)]
        ∧ system.write s out text = .ok (system.invoke wording args s).state
        ∧ (system.invoke wording args s).stdout = "Wrote: " ++ out ++ "\n"
        ∧ ∀ d d' : Directory, d.write? out text = some d' →
            ∃ name, d.resolve? out = some name ∧ d.resolve? file ≠ some name
              ∧ d.Wrote name text d' := by
  refine ⟨fun hcode => ?_, fun hother => ?_, fun file hparse hcode => ?_⟩
  · cases hresult : (system.invoke wording args s).result with
    | ok a => exact absurd (Run.exitCode_eq_zero_iff.2 ⟨a, hresult⟩) hcode
    | error fault =>
        have hinputs := (outputsLast_invocation wording args).of_fault hresult
        have hwritten := Run.written_of_inputs hinputs
        exact ⟨hinputs, Run.stdout_of_inputs hinputs, hwritten, state_of_written_eq_nil _ hwritten⟩
  · have hwritten : (system.invoke wording args s).written = [] :=
      List.filterMap_eq_nil_iff.2 ((takes_invocation hother).forall_events s)
    exact ⟨hwritten, state_of_written_eq_nil _ hwritten⟩
  · rw [System.invoke_of_parse hparse] at hcode ⊢
    obtain ⟨text, s', htext, hwrite⟩ := Command.exists_of_unparse hcode
    obtain ⟨p, hp, hjs⟩ := readJavaScript_eq_ok_iff.1 htext
    obtain ⟨source, hsource, hread⟩ := readProgram_eq_ok_iff.1 hp
    have hinputs : ∀ e ∈ ((readJavaScript file).run system s).events, e.isInput = true :=
      (onlyReads_readJavaScript file).forall_events
    have hnamed := outputNamed_outputName file
    simp only [Command.run_unparse, htext, hwrite]
    refine ⟨source, p, text, outputName file, hsource, hread, hjs, hnamed, hnamed.ne, ?_, hwrite, ?_,
      fun d d' hd => ?_⟩
    · exact Run.written_append hinputs _ s' _
    · rw [Run.stdout_append hinputs]
      exact join_singleton _
    · obtain ⟨name, hname, hwrote⟩ := Directory.wrote_of_write? hd
      exact ⟨name, hname, hnamed.resolve?_ne hname, hwrote⟩

def truthProgram : Program := ⟨[.expr (.bool true)]⟩

theorem read?_truthProgram :
    Program.read? truthProgram.toJson.compact = some truthProgram := by
  have hfits : truthProgram.Fits 4 := Program.fits_iff.2 fun f hf => by
    rw [List.mem_singleton.1 hf]
    exact Form.fits_expr.2 (Expr.fits_leaf rfl rfl (by simp [Expr.toJson, Json.depth]))
  exact Program.read?_compact ⟨hfits.depth_le.trans (by decide), hfits.allFinite⟩

/-- Without a file to read nothing happens. With one, the output replaces the file beside it, on
whatever way it is reached. -/
theorem invocation_touches_only_its_output_beside :
    ∃ (source : String) (d : Directory), Program.read? source = some truthProgram
      ∧ d = ⟨[("../p.json", source), ("../p.js", "1")]⟩
      ∧ (d.invoke ["unparse"] "").exitCode ≠ 0 ∧ (d.invoke ["unparse"] "").state = d
      ∧ (d.invoke ["unparse", "./../p.json"] "").exitCode = 0
      ∧ ∃ text out name, truthProgram.toJavaScript = .ok text ∧ OutputNamed "./../p.json" out
        ∧ (d.invoke ["unparse", "./../p.json"] "").written = [(out, text)]
        ∧ d.resolve? out = some name ∧ d.resolve? "./../p.json" ≠ some name
        ∧ d.Wrote name text (d.invoke ["unparse", "./../p.json"] "").state := by
  have hread := read?_truthProgram
  generalize truthProgram.toJson.compact = source at hread
  refine ⟨source, _, hread, rfl, ?_⟩
  generalize hd : Directory.mk [("../p.json", source), ("../p.js", "1")] = d
  have hsource : (Directory.system "").read d "./../p.json" = .ok source := by
    subst hd
    rfl
  -- the path is followed by evaluation, but whether a file is a directory is a matter of its text
  have hfree : d.hasDirectory "../p.js" = false := by
    subst hd
    simp [Directory.hasDirectory, List.isPrefixOf]
  have hresolve : d.resolve? "./../p.js" = some "../p.js" := rfl
  have hwrite : d.write? "./../p.js" "true" = some (d.save "../p.js" "true") := by
    simp only [Directory.write?, hresolve, Option.bind_eq_bind, Option.bind_some, hfree]
    rfl
  have htext : (readJavaScript "./../p.json").answer (Directory.system "") d = .ok "true" :=
    readJavaScript_eq_ok_iff.2 ⟨truthProgram, readProgram_eq_ok_iff.2 ⟨source, hsource, hread⟩, rfl⟩
  have hsave : (Directory.system "").write d (outputName "./../p.json") "true"
      = .ok (d.save "../p.js" "true") := Directory.system_write_eq_ok_iff.2 hwrite
  have hparse : Command.parse ["unparse", "./../p.json"] = .ok (.unparse "./../p.json" false) := rfl
  have hcode : (d.invoke ["unparse", "./../p.json"] "").exitCode = 0 := by
    unfold Directory.invoke
    rw [System.invoke_of_parse hparse]
    simp only [Command.run_unparse, htext, hsave]
    rfl
  have husage : (d.invoke ["unparse"] "").exitCode ≠ 0 := Fault.exitCode_ne_zero (.usage ["unparse"])
  obtain ⟨hfailing, _, _⟩ :=
    invocation_touches_only_its_output (Directory.system "") plainWording ["unparse"] d
  obtain ⟨_, _, hunparse⟩ := invocation_touches_only_its_output (Directory.system "") plainWording
    ["unparse", "./../p.json"] d
  obtain ⟨source', p, text, out, hsource', hread', hjs, hnamed, _, hwritten, hstate, _, hapart⟩ :=
    hunparse "./../p.json" hparse hcode
  rw [if_neg (by decide), hsource, Except.ok.injEq] at hsource'
  rw [← hsource', hread, Option.some.injEq] at hread'
  obtain ⟨name, hname, hother, hwrote⟩ := hapart d _ (Directory.system_write_eq_ok_iff.1 hstate)
  exact ⟨husage, (hfailing husage).2.2.2, hcode, text, out, name, hread' ▸ hjs, hnamed, hwritten, hname,
    hother, hwrote⟩

end L32
