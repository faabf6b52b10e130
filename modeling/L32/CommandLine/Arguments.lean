import L32.Options

set_option autoImplicit false

/-! # Command lines

What a command line asks for. There are three commands, each with one file argument:

* `desugar FILE [-c FILE] [--value-policy POLICY] [--scheme]`
* `run FILE [-c FILE] [--value-policy POLICY]`
* `unparse FILE [--stdout]`

Options follow the command and may stand before or after the file. The value of a long option is
the next argument or stands after an equals sign; `-c` is short for `--config`, and its value may
also follow at once. No option may be given twice. Two hyphens end the options, and a single one
is an ordinary argument.

Help is asked for by `-h` or `--help`, in front or among the options of a command, and by the word
`help`, which may be followed by the name of a command. The arguments are read from the left, so
help is given when everything in front of the wish for it is in order, whatever follows. -/

namespace L32

/-- Where the options of desugaring come from: a file, and a policy that overrides it. -/
structure Settings where
  config : Option String := none
  policy : Option ValuePolicy := none
  deriving DecidableEq, Repr

inductive Command where
  /-- Print the desugared program as JSON, or its forms in Scheme's notation. -/
  | desugar (file : String) (settings : Settings) (scheme : Bool)
  /-- Print the desugared program as one Scheme form. -/
  | run (file : String) (settings : Settings)
  /-- Write the program as JavaScript, to a file or to the standard output. -/
  | unparse (file : String) (toStdout : Bool)
  deriving DecidableEq, Repr

inductive NoCommand where
  | help
  | invalidPolicy (name : String)
  | malformed
  deriving DecidableEq, Repr

namespace CommandLine

inductive Flag where
  | config
  | valuePolicy
  | scheme
  | stdout
  deriving DecidableEq, Repr

namespace Flag

def ofName? : String → Option Flag
  | "config" => some config
  | "value-policy" => some valuePolicy
  | "scheme" => some scheme
  | "stdout" => some stdout
  | _ => none

def takesValue : Flag → Bool
  | config | valuePolicy => true
  | scheme | stdout => false

end Flag

/-! ## Single arguments -/

inductive Argument where
  /-- The end of the options. -/
  | stop
  | help
  /-- An option, with the value that is written in the same argument. -/
  | flag (flag : Flag) (value : Option String)
  | file (name : String)
  /-- Something that looks like an option and is none. -/
  | unknown

/-- The part of a text before the first equals sign, and the part after it if there is one. -/
def splitAtEquals : List Char → List Char × Option (List Char)
  | [] => ([], none)
  | '=' :: cs => ([], some cs)
  | c :: cs => let (front, back) := splitAtEquals cs; (c :: front, back)

/-- An argument that starts with two hyphens, from what follows them. -/
def Argument.ofLong (cs : List Char) : Argument :=
  let (name, value) := splitAtEquals cs
  if name = ['h', 'e', 'l', 'p'] ∧ value = none then .help
  else match Flag.ofName? (String.ofList name) with
    | some f => .flag f (value.map String.ofList)
    | none => .unknown

/-- Classifies an argument in front of the end of the options. What follows the letter of `-h` in
the same argument does not count. -/
def Argument.ofString (arg : String) : Argument :=
  match arg.toList with
  | ['-', '-'] => .stop
  | '-' :: '-' :: cs => ofLong cs
  | ['-', 'c'] => .flag .config none
  | '-' :: 'c' :: '=' :: cs => .flag .config (some (String.ofList cs))
  | '-' :: 'c' :: cs => .flag .config (some (String.ofList cs))
  | '-' :: 'h' :: _ => .help
  | '-' :: _ :: _ => .unknown
  | _ => .file arg

/-- Whether an argument can be the value of the option before it. -/
def isValue (arg : String) : Bool :=
  match arg.toList with
  | '-' :: _ :: _ => false
  | _ => true

/-! ## All arguments of a command -/

inductive Item where
  | file (name : String)
  | flag (flag : Flag) (value : String)
  | help
  | wrong
  deriving DecidableEq, Repr

/-- The items of a command that takes only the given options, up to the first that ends the
reading. -/
def items (allowed : List Flag) : List String → List Item
  | [] => []
  | arg :: args =>
    match Argument.ofString arg with
    | .stop => args.map .file
    | .help => [.help]
    | .unknown => [.wrong]
    | .file name => .file name :: items allowed args
    | .flag flag value =>
      if allowed.contains flag then
        match flag.takesValue, value with
        | true, some v => .flag flag v :: items allowed args
        | true, none =>
          match args with
          | v :: args => if isValue v then .flag flag v :: items allowed args else [.wrong]
          | [] => [.wrong]
        | false, none => .flag flag "" :: items allowed args
        | false, some _ => [.wrong]
      else [.wrong]

structure Sorted where
  flags : List (Flag × String) := []
  file : Option String := none
  deriving DecidableEq, Repr

namespace Sorted

def value? (flag : Flag) (sorted : Sorted) : Option String :=
  (sorted.flags.find? fun f => f.1 = flag).map Prod.snd

def has (flag : Flag) (sorted : Sorted) : Bool :=
  (sorted.value? flag).isSome

/-- Adds an option that has not been given. Of the values only that of a policy is looked at. -/
def addFlag (flag : Flag) (value : String) (sorted : Sorted) : Except NoCommand Sorted :=
  if sorted.has flag then .error .malformed
  else if flag = .valuePolicy ∧ ValuePolicy.ofName? value = none then .error (.invalidPolicy value)
  else .ok { sorted with flags := sorted.flags ++ [(flag, value)] }

/-- Adds an item to those before it. There may be one file. -/
def add (sorted : Sorted) : Item → Except NoCommand Sorted
  | .file name => if sorted.file = none then .ok { sorted with file := some name }
      else .error .malformed
  | .flag flag value => sorted.addFlag flag value
  | .help => .error .help
  | .wrong => .error .malformed

def settings (sorted : Sorted) : Settings where
  config := sorted.value? .config
  policy := (sorted.value? .valuePolicy).bind ValuePolicy.ofName?

end Sorted

/-- Sorts the arguments of a command that takes only the given options, and makes the command from
the file and from what has been sorted. -/
def parseWith {α : Type} (allowed : List Flag) (make : String → Sorted → α) (args : List String) :
    Except NoCommand α := do
  let sorted ← (items allowed args).foldlM Sorted.add {}
  match sorted.file with
  | some file => .ok (make file sorted)
  | none => .error .malformed

end CommandLine

open CommandLine in
/-- **The command of a command line**, if it is one. -/
def Command.parse : List String → Except NoCommand Command
  | "desugar" :: args => parseWith [.config, .valuePolicy, .scheme]
      (fun file sorted => .desugar file sorted.settings (sorted.has .scheme)) args
  | "run" :: args => parseWith [.config, .valuePolicy]
      (fun file sorted => .run file sorted.settings) args
  | "unparse" :: args => parseWith [.stdout]
      (fun file sorted => .unparse file (sorted.has .stdout)) args
  | "help" :: topics =>
    if topics ∈ [[], ["desugar"], ["run"], ["unparse"], ["help"]] then .error .help
    else .error .malformed
  | arg :: _ =>
    match Argument.ofString arg with
    | .help => .error .help
    | _ => .error .malformed
  | [] => .error .malformed

end L32
