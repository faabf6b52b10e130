import L32.Expr
import L32.Json.Reader

set_option autoImplicit false

/-! # Programs as JSON

The JSON form of data, expressions, forms and programs, `toJson`, and its reading, `ofJson?`.

A value with several kinds is an object whose only key names the kind, as in `{"Var": "x"}`; a
kind without a content, the empty list, is a bare string. A record is an object with its fields in
a fixed order. Reading is more generous: the fields of a record may come in any order and among
others, which are not looked at, or as an array without names, and the empty list may be an object
with a null in it.

Arrays and objects nest at most `nestingLimit` deep in what is read. The limit does not hold for
the content of fields that are not looked at. Reading therefore goes by the number of levels that
are left, and each array or object that is entered takes one of them. -/

namespace L32

/-- How deep arrays and objects may nest in a text that is read. -/
def nestingLimit : Nat := 127

namespace Json

/-! ## Parts of values -/

/-- An object with one field. -/
def tagged (tag : String) (content : Json) : Json :=
  object [(some tag, content)]

def ofString (s : String) : Json :=
  str (some s)

def record (fields : List (String × Json)) : Json :=
  object (fields.map fun f => (some f.1, f.2))

/-- A number; what is not a finite number is null. -/
def ofFloat (x : Float) : Json :=
  match Numeral.ofFloat? x with
  | some n => number n
  | none => null

def string? : Json → Option String
  | str s => s
  | _ => none

def bool? : Json → Option Bool
  | bool b => some b
  | _ => none

/-- The double nearest to a number. -/
def float? : Json → Option Float
  | number n => n.toFloat?
  | _ => none

/-- What a function gives for all members of a list, if it gives something for each. -/
def readAll {α β : Type} (f : α → Option β) : List α → Option (List β)
  | [] => some []
  | a :: as => do
    let b ← f a
    let bs ← readAll f as
    some (b :: bs)

def strings? : Json → Option (List String)
  | array items => readAll string? items
  | _ => none

/-- The content of the field of that name, if there is exactly one. -/
def field? (name : String) (fields : List (Option String × Json)) : Option Json :=
  match fields.filter fun f => f.1 = some name with
  | [(_, v)] => some v
  | _ => none

/-- The contents of the named fields of a record, in the order of the names. An array holds them
in this order and nothing else; in an object each occurs once, and every name is a text. -/
def fields? (names : List String) : Json → Option (List Json)
  | array items => if items.length = names.length then some items else none
  | object fields =>
    if fields.all fun f => f.1.isSome then readAll (field? · fields) names else none
  | _ => none

end Json

/-! ## Data -/

def Datum.toJson : Datum → Json
  | symbol name => .tagged "Symbol" (.ofString name)
  | number x => .tagged "Number" (.ofFloat x)
  | bool b => .tagged "Bool" (.bool b)
  | str s => .tagged "Str" (.ofString s)
  | pair h t => .tagged "Pair" (.array [h.toJson, t.toJson])
  | empty => .ofString "Empty"

/-- Reads a datum, with that many levels of nesting left. -/
def Datum.ofJsonWithin? : Nat → Json → Option Datum
  | n + 1, .object [(some tag, content)] =>
    match tag with
    | "Symbol" => content.string?.map .symbol
    | "Number" => content.float?.map .number
    | "Bool" => content.bool?.map .bool
    | "Str" => content.string?.map .str
    | "Pair" =>
      match n, content with
      | m + 1, .array [h, t] => do
        let h ← Datum.ofJsonWithin? m h
        let t ← Datum.ofJsonWithin? m t
        some (.pair h t)
      | _, _ => none
    | "Empty" =>
      match content with
      | .null => some .empty
      | _ => none
    | _ => none
  | _, .str (some "Empty") => some .empty
  | _, _ => none

/-! ## Expressions -/

mutual

def Expr.toJson : Expr → Json
  | .number x => .tagged "Number" (.ofFloat x)
  | .bool b => .tagged "Bool" (.bool b)
  | .str s => .tagged "Str" (.ofString s)
  | .var name => .tagged "Var" (.ofString name)
  | .prim name => .tagged "PrimOp" (.ofString name)
  | .literal d => .tagged "Literal" d.toJson
  | .cond test yes no =>
    .tagged "If" (.record [("test", test.toJson), ("then", yes.toJson), ("alt", no.toJson)])
  | .lambda params body =>
    .tagged "Proc" (.record [("params", .array (params.map .ofString)),
      ("body", .array (Expr.toJsons body))])
  | .app operator operands =>
    .tagged "App" (.record [("rator", operator.toJson), ("rands", .array (Expr.toJsons operands))])
  | .letIn bindings body =>
    .tagged "Let" (.record [("bindings", .array (Expr.bindingsToJson bindings)),
      ("body", .array (Expr.toJsons body))])
  | .dict entries => .tagged "Dict" (.record [("entries", .array (Expr.entriesToJson entries))])

def Expr.toJsons : List Expr → List Json
  | [] => []
  | e :: es => e.toJson :: Expr.toJsons es

def Expr.bindingsToJson : List (Binding Expr) → List Json
  | [] => []
  | ⟨name, e⟩ :: bs =>
    .record [("name", .ofString name), ("value", e.toJson)] :: Expr.bindingsToJson bs

def Expr.entriesToJson : List (Entry Expr) → List Json
  | [] => []
  | ⟨k, e⟩ :: es => .record [("key", k.toJson), ("value", e.toJson)] :: Expr.entriesToJson es

end

mutual

/-- Reads an expression, with that many levels of nesting left. -/
def Expr.ofJsonWithin? : Nat → Json → Option Expr
  | n + 1, .object [(some tag, content)] =>
    match tag with
    | "Number" => content.float?.map .number
    | "Bool" => content.bool?.map .bool
    | "Str" => content.string?.map .str
    | "Var" => content.string?.map .var
    | "PrimOp" => content.string?.map .prim
    | "Literal" => (Datum.ofJsonWithin? n content).map .literal
    | "If" =>
      match n, content.fields? ["test", "then", "alt"] with
      | m + 1, some [test, yes, no] => do
        let t ← Expr.ofJsonWithin? m test
        let y ← Expr.ofJsonWithin? m yes
        let n ← Expr.ofJsonWithin? m no
        some (.cond t y n)
      | _, _ => none
    | "Proc" =>
      match n, content.fields? ["params", "body"] with
      | m + 2, some [params, body] => do
        let ps ← params.strings?
        let es ← Expr.allOfJsonWithin? (m + 1) body
        some (.lambda ps es)
      | _, _ => none
    | "App" =>
      match n, content.fields? ["rator", "rands"] with
      | m + 1, some [operator, operands] => do
        let f ← Expr.ofJsonWithin? m operator
        let es ← Expr.allOfJsonWithin? m operands
        some (.app f es)
      | _, _ => none
    | "Let" =>
      match n, content.fields? ["bindings", "body"] with
      | m + 1, some [bindings, body] => do
        let bs ← Expr.bindingsOfJsonWithin? m bindings
        let es ← Expr.allOfJsonWithin? m body
        some (.letIn bs es)
      | _, _ => none
    | "Dict" =>
      match n, content.fields? ["entries"] with
      | m + 1, some [entries] => do
        let es ← Expr.entriesOfJsonWithin? m entries
        some (.dict es)
      | _, _ => none
    | _ => none
  | _, _ => none

def Expr.allOfJsonWithin? : Nat → Json → Option (List Expr)
  | n + 1, .array items => Json.readAll (Expr.ofJsonWithin? n) items
  | _, _ => none

def Expr.bindingOfJsonWithin? : Nat → Json → Option (Binding Expr)
  | n + 1, content =>
    match content.fields? ["name", "value"] with
    | some [name, value] => do
      let name ← name.string?
      let e ← Expr.ofJsonWithin? n value
      some ⟨name, e⟩
    | _ => none
  | _, _ => none

def Expr.bindingsOfJsonWithin? : Nat → Json → Option (List (Binding Expr))
  | n + 1, .array items => Json.readAll (Expr.bindingOfJsonWithin? n) items
  | _, _ => none

def Expr.entryOfJsonWithin? : Nat → Json → Option (Entry Expr)
  | n + 1, content =>
    match content.fields? ["key", "value"] with
    | some [key, value] => do
      let k ← Expr.ofJsonWithin? n key
      let e ← Expr.ofJsonWithin? n value
      some ⟨k, e⟩
    | _ => none
  | _, _ => none

def Expr.entriesOfJsonWithin? : Nat → Json → Option (List (Entry Expr))
  | n + 1, .array items => Json.readAll (Expr.entryOfJsonWithin? n) items
  | _, _ => none

end

/-! ## Forms and programs -/

def Form.toJson : Form → Json
  | define name value =>
    .tagged "Define" (.record [("name", .ofString name), ("value", value.toJson)])
  | expr value => .tagged "Expr" value.toJson

def Program.toJson (p : Program) : Json :=
  .record [("forms", .array (p.forms.map Form.toJson))]

def Form.ofJsonWithin? : Nat → Json → Option Form
  | n + 1, .object [(some tag, content)] =>
    match tag with
    | "Define" =>
      match n, content.fields? ["name", "value"] with
      | m + 1, some [name, value] => do
        let name ← name.string?
        let e ← Expr.ofJsonWithin? m value
        some (.define name e)
      | _, _ => none
    | "Expr" => (Expr.ofJsonWithin? n content).map .expr
    | _ => none
  | _, _ => none

def Program.ofJsonWithin? : Nat → Json → Option Program
  | n + 2, content =>
    match content.fields? ["forms"] with
    | some [.array items] => (Json.readAll (Form.ofJsonWithin? n) items).map .mk
    | _ => none
  | _, _ => none

/-! ## Reading a whole text -/

def Datum.ofJson? (v : Json) : Option Datum :=
  Datum.ofJsonWithin? nestingLimit v

def Expr.ofJson? (v : Json) : Option Expr :=
  Expr.ofJsonWithin? nestingLimit v

def Form.ofJson? (v : Json) : Option Form :=
  Form.ofJsonWithin? nestingLimit v

/-- **Reads the JSON form of a program.** -/
def Program.ofJson? (v : Json) : Option Program :=
  Program.ofJsonWithin? nestingLimit v

def Program.read? (text : String) : Option Program :=
  (Json.read? text).bind Program.ofJson?

end L32
