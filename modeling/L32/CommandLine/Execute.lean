import L32.CommandLine.Arguments
import L32.CommandLine.Script
import L32.Desugar
import L32.Json.Codec

set_option autoImplicit false

/-! # Executing commands

`invocation` is what a command line does, as a script. It loads the options, reads the program and
works on it, and whatever is wrong on the way ends it: the arguments, the options file, the program
file, its JSON, the program, and last the output file. -/

namespace L32

namespace CommandLine

/-- The name that stands for the standard input. -/
def stdinName : String := "-"

def readText (file : String) : Script String :=
  if file = stdinName then .stdin (.ensure .file) else .read file (.ensure .file)

def readProgram (file : String) : Script Program := do
  let text ← readText file
  match Program.read? text with
  | some p => .done p
  | none => .fail (.json text)

/-- The options of a file, or the default ones. -/
def readOptions : Option String → Script Options
  | none => .done {}
  | some path => do
    let text ← .read path (.ensure .unreadableOptions)
    .ensure (fun _ => .invalidOptions text) (Options.read text)

/-- The options of a command. The policy of the command line counts before that of the file, but
the file is read in any case. -/
def loadOptions (settings : Settings) : Script Options := do
  let options ← readOptions settings.config
  .done ⟨settings.policy.getD options.valuePolicy⟩

def readDesugared (file : String) (settings : Settings) : Script Program := do
  let options ← loadOptions settings
  let p ← readProgram file
  .ensure .desugar (p.desugar options.valuePolicy)

def readJavaScript (file : String) : Script String := do
  let p ← readProgram file
  .ensure .unparse p.toJavaScript

/-- The name without `.json` at its end, if it ends so. -/
def stem? (name : String) : Option String :=
  match name.toList.reverse with
  | 'n' :: 'o' :: 's' :: 'j' :: '.' :: rest => some (String.ofList rest.reverse)
  | _ => none

/-- The name of the JavaScript file: `.json` at the end of the program's name becomes `.js`. -/
def outputName (file : String) : String :=
  if file = stdinName then "output.js" else (stem? file).getD file ++ ".js"

end CommandLine

open CommandLine

def Command.script : Command → Script Unit
  | desugar file settings scheme => do
    let p ← readDesugared file settings
    if scheme then .printAll (p.forms.map fun f => f.toScheme ++ "\n")
    else .printAll [p.toJson.pretty ++ "\n"]
  | run file settings => do
    let p ← readDesugared file settings
    .printAll [p.toScheme ++ "\n"]
  | unparse file toStdout => do
    let text ← readJavaScript file
    if toStdout then .printAll [text ++ "\n"]
    else do
      .write (outputName file) text (.ensure .file)
      .printAll ["Wrote: " ++ outputName file ++ "\n"]

/-- What happens to arguments that make no command. To ask for help is no mistake. -/
def NoCommand.script (wording : Wording) (args : List String) : NoCommand → Script Unit
  | help => .printAll [wording.help args]
  | invalidPolicy name => .fail (.invalidPolicy name)
  | malformed => .fail (.usage args)

/-- **The work of a command line.** -/
def invocation (wording : Wording) (args : List String) : Script Unit :=
  match Command.parse args with
  | .ok command => command.script
  | .error reason => reason.script wording args

def System.invoke {σ : Type} (system : System σ) (wording : Wording) (args : List String) (s : σ) :
    Run σ Unit :=
  (invocation wording args).run system s

end L32
