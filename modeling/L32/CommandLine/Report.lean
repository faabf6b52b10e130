import L32.JavaScript.Unparse
import L32.Options
import L32.Quotation
import L32.Text.Invisible

set_option autoImplicit false

/-! # Failures and their reports

Why an invocation fails, and what it says then. An error in a program is reported by its name, with
its particulars between parentheses or braces, and texts between quotes. What the libraries below
say in their own words (about arguments, about texts that are no JSON or no TOML, and in the help)
is not fixed here: it is the `Wording`, a parameter. What the operating system says comes with its
answer. -/

namespace L32

namespace Report

/-- A character by its code, as many hexadecimal digits as it needs between braces. -/
def codeText (c : Char) : List Char :=
  ['\\', 'u', '\x7b'] ++ Nat.toDigits 16 c.toNat ++ ['\x7d']

/-- The escapes of a quoted text: quote, backslash, line feed, carriage return, tab and the zero
character; every other control or invisible character by its code. -/
def escape (c : Char) : List Char :=
  match c with
  | '"' => ['\\', '"']
  | '\\' => ['\\', '\\']
  | '\n' => ['\\', 'n']
  | '\r' => ['\\', 'r']
  | '\t' => ['\\', 't']
  | '\x00' => ['\\', '0']
  | c => if isControl c || isInvisible c then codeText c else [c]

def quoted (s : String) : String :=
  "\"" ++ escapeWith escape s ++ "\""

end Report

open Report

def DesugarError.report : DesugarError → String
  | malformedKey text => "MalformedDictKey(" ++ quoted text ++ ")"
  | nonLiteralValue text => "NonLiteralValue(" ++ quoted text ++ ")"

def UnparseError.report : UnparseError → String
  | unsupportedNode text => "UnsupportedNode(" ++ quoted text ++ ")"
  | operandCount operator expected got =>
    "InvalidArgCount \x7b op: " ++ quoted operator ++ ", expected: " ++ natText expected
      ++ ", got: " ++ natText got ++ " \x7d"
  | emptyBody text => "EmptyBody(" ++ quoted text ++ ")"

/-! ## Failures -/

/-- The kinds of failures. An error in a program is its own kind. -/
inductive Failure where
  /-- The arguments make no command. -/
  | usage
  /-- The options file is unreadable or invalid. -/
  | options (error : OptionsError)
  /-- The program cannot be read, or the output file cannot be written. -/
  | file
  /-- The program is not in its JSON form. -/
  | json
  | desugar (error : DesugarError)
  | unparse (error : UnparseError)
  deriving DecidableEq, Repr

namespace Failure

def exitCode : Failure → Nat
  | usage => 2
  | _ => 1

/-- The report of an error in a program. -/
def report? : Failure → Option String
  | desugar error => some error.report
  | unparse error => some error.report
  | _ => none

end Failure

/-- A failure with all that its message depends on: the arguments or the text that were refused, or
what the operating system said. -/
inductive Fault where
  | usage (args : List String)
  | invalidPolicy (name : String)
  | unreadableOptions (message : String)
  | invalidOptions (text : String)
  | file (message : String)
  | json (text : String)
  | desugar (error : DesugarError)
  | unparse (error : UnparseError)
  deriving DecidableEq, Repr

/-- What the libraries say. The text about a policy that is none depends on the name alone, that
about other arguments on all of them. -/
structure Wording where
  help : List String → String
  usage : List String → String
  invalidPolicy : String → String
  /-- About a text that is no TOML document, or one with wrong options. -/
  toml : String → String
  /-- About a text that is not the JSON form of a program. -/
  json : String → String

namespace Fault

def failure : Fault → Failure
  | usage _ | invalidPolicy _ => .usage
  | unreadableOptions _ => .options .unreadable
  | invalidOptions _ => .options .invalid
  | file _ => .file
  | json _ => .json
  | desugar error => .desugar error
  | unparse error => .unparse error

def exitCode (fault : Fault) : Nat := fault.failure.exitCode

def message (wording : Wording) : Fault → String
  | usage args => wording.usage args
  | invalidPolicy name => wording.invalidPolicy name
  | unreadableOptions message => "Io(" ++ message ++ ")"
  | invalidOptions text => "Toml(" ++ wording.toml text ++ ")"
  | file message => message
  | json text => wording.json text
  | desugar error => error.report
  | unparse error => error.report

end Fault

/-- One wording, in short sentences. -/
def plainWording : Wording where
  help _ := "desugar FILE, run FILE or unparse FILE; a hyphen stands for the standard input"
  usage _ := "the arguments are no command: desugar, run or unparse, and a file"
  invalidPolicy name := Report.quoted name ++ " is no policy: literal or structural"
  toml _ := "the options file is invalid"
  json _ := "the program is not in its JSON form"

end L32
