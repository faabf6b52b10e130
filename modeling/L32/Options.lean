import L32.Quotation
import L32.Toml.Reader

set_option autoImplicit false

/-! # Options

The options of desugaring, and their reading from a TOML document. They stand in the table
`desugar`; other tables and keys are left alone, and what is not given has its default.

The table may also be written as an array that holds the options in their order, and a date in its
place counts as a table without known keys. A policy is written as its name, or as a table whose
only key is its name and whose value there is empty. -/

namespace L32

structure Options where
  valuePolicy : ValuePolicy := .literal
  deriving DecidableEq, Repr, Inhabited

inductive OptionsError where
  /-- The file cannot be read as text. -/
  | unreadable
  /-- The text is no TOML document, or the options in it are wrong. -/
  | invalid
  deriving DecidableEq, Repr

def ValuePolicy.ofName? : String → Option ValuePolicy
  | "literal" => some literal
  | "structural" => some structural
  | _ => none

def ValuePolicy.name : ValuePolicy → String
  | literal => "literal"
  | structural => "structural"

/-- Whether a value is an array or a table without members. -/
def Toml.isHollow : Toml → Bool
  | .array [] => true
  | .table _ [] => true
  | _ => false

def ValuePolicy.ofToml? : Toml → Option ValuePolicy
  | .str name => ofName? name
  | .table _ [(name, content)] => if content.isHollow then ofName? name else none
  | _ => none

/-- Reads the options from an array that holds them in order. -/
def Options.ofItems? : List Toml → Option Options
  | [] => some {}
  | v :: _ => (ValuePolicy.ofToml? v).map fun policy => ⟨policy⟩

/-- Reads the options from the value of `desugar`. -/
def Options.ofToml? : Toml → Option Options
  | .table _ fields =>
    match Toml.get? "value_policy" fields with
    | none => some {}
    | some v => (ValuePolicy.ofToml? v).map fun policy => ⟨policy⟩
  | .array items => ofItems? items
  | .tables earlier last => ofItems? (earlier ++ [.table .header last])
  | .date _ => some {}
  | _ => none

/-- **Reads the options from a TOML text.** -/
def Options.read (text : String) : Except OptionsError Options :=
  match Toml.read? text with
  | none => .error .invalid
  | some fields =>
    match Toml.get? "desugar" fields with
    | none => .ok {}
    | some v =>
      match ofToml? v with
      | some options => .ok options
      | none => .error .invalid

/-- Reads the options from the text of a file; `none` when there is no such text. -/
def Options.ofFileText : Option String → Except OptionsError Options
  | none => .error .unreadable
  | some text => read text

end L32
