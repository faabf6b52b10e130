import L32.Toml.Scalar

set_option autoImplicit false

/-! # Reading TOML

`Toml.read?` gives the table of a TOML document. Reading goes in two steps: the text becomes a
list of statements, and the statements build the document one after the other.

As with JSON, each function takes a text apart from the front and gives what it has read together
with the rest; those that go through a text in steps of varying length take a bound on the number
of steps first, and the length of the text is enough. -/

namespace L32.Toml

/-! ## Blanks, comments and the ends of lines -/

def skipSpaces : List Char → List Char
  | [] => []
  | c :: cs => if c = ' ' ∨ c = '\t' then skipSpaces cs else c :: cs

/-- The characters of comments and strings on one line: tab and whatever is not a control
character of ASCII. -/
def isPlain (c : Char) : Bool :=
  c = '\t' || (32 ≤ c.toNat && c.toNat ≠ 127)

/-- What follows the end of a line; the end of the text ends a line too. -/
def endLine? : List Char → Option (List Char)
  | [] => some []
  | '\n' :: cs => some cs
  | '\r' :: '\n' :: cs => some cs
  | _ => none

def skipComment : List Char → List Char
  | '#' :: cs => cs.dropWhile isPlain
  | cs => cs

/-- What follows the line when nothing but a comment is left on it. -/
def finishLine? (cs : List Char) : Option (List Char) :=
  endLine? (skipComment (skipSpaces cs))

/-- The text without the blanks, ends of lines and comments in front. -/
def skipFiller : Nat → List Char → List Char
  | 0, cs => cs
  | n + 1, cs =>
    match skipSpaces cs with
    | '\n' :: rest => skipFiller n rest
    | '\r' :: '\n' :: rest => skipFiller n rest
    | '#' :: rest =>
      match rest.dropWhile isPlain with
      | '\n' :: rest => skipFiller n rest
      | '\r' :: '\n' :: rest => skipFiller n rest
      | rest => rest
    | rest => rest

/-! ## Strings -/

/-- The character of a code that hexadecimal digits spell. -/
def codeChar? (digits : List Char) : Option Char := do
  let ds ← digits.foldr (fun c ds => do some ((← hexValue? c) :: (← ds))) (some [])
  let n := ds.foldl (fun n d => 16 * n + d) 0
  if n < 0xD800 ∨ (0xE000 ≤ n ∧ n < 0x110000) then some (Char.ofNat n) else none

/-- The characters that a backslash and one letter stand for. -/
def shortEscape? : Char → Option Char
  | 'b' => some '\x08'
  | 't' => some '\t'
  | 'n' => some '\n'
  | 'f' => some '\x0c'
  | 'r' => some '\r'
  | '"' => some '"'
  | '\\' => some '\\'
  | _ => none

/-- The character of an escape after its backslash, and the rest. -/
def readEscape? : List Char → Option (Char × List Char)
  | 'u' :: cs =>
    if cs.length < 4 then none else (codeChar? (cs.take 4)).map (·, cs.drop 4)
  | 'U' :: cs =>
    if cs.length < 8 then none else (codeChar? (cs.take 8)).map (·, cs.drop 8)
  | c :: cs => (shortEscape? c).map (·, cs)
  | [] => none

/-- The rest of a string on one line, after its opening quote. -/
def readBasic? : Nat → List Char → Option (List Char × List Char)
  | 0, _ => none
  | n + 1, cs =>
    match cs with
    | '"' :: rest => some ([], rest)
    | '\\' :: rest => do
      let (c, rest) ← readEscape? rest
      let (s, rest) ← readBasic? n rest
      some (c :: s, rest)
    | c :: rest =>
      if isPlain c then do
        let (s, rest) ← readBasic? n rest
        some (c :: s, rest)
      else none
    | [] => none

/-- The rest of a string without escapes on one line, after its opening apostrophe. -/
def readRaw? : List Char → Option (List Char × List Char)
  | '\x27' :: rest => some ([], rest)
  | c :: rest =>
    if isPlain c then do
      let (s, rest) ← readRaw? rest
      some (c :: s, rest)
    else none
  | [] => none

/-- The text without the end of a line directly in front. -/
def skipBreak : List Char → List Char
  | '\n' :: cs => cs
  | '\r' :: '\n' :: cs => cs
  | cs => cs

/-- The text without the blanks and ends of lines in front. -/
def skipGap : List Char → List Char
  | '\r' :: '\n' :: cs => skipGap cs
  | c :: cs => if c = ' ' ∨ c = '\t' ∨ c = '\n' then skipGap cs else c :: cs
  | [] => []

/-- What follows a backslash at the end of a line: the next text of the string, without the blanks
and ends of lines between. -/
def joinLines? (cs : List Char) : Option (List Char) :=
  match skipSpaces cs with
  | '\n' :: rest => some (skipGap rest)
  | '\r' :: '\n' :: rest => some (skipGap rest)
  | _ => none

/-- The rest of a string over several lines, with escapes or without, after its opening `quote`.
Up to two quotes may stand before the three that close it. -/
def readLong? (escapes : Bool) (quote : Char) : Nat → List Char → Option (List Char × List Char)
  | 0, _ => none
  | n + 1, cs =>
    match cs with
    | [] => none
    | '\r' :: '\n' :: rest => do
      let (s, rest) ← readLong? escapes quote n rest
      some ('\n' :: s, rest)
    | c :: rest =>
      if c = quote then
        let run := ((cs.take 5).takeWhile (· = quote)).length
        if 3 ≤ run then some (List.replicate (run - 3) quote, cs.drop run)
        else do
          let (s, rest) ← readLong? escapes quote n rest
          some (c :: s, rest)
      else if escapes ∧ c = '\\' then
        match joinLines? rest with
        | some rest => readLong? escapes quote n rest
        | none => do
          let (c, rest) ← readEscape? rest
          let (s, rest) ← readLong? escapes quote n rest
          some (c :: s, rest)
      else if c = '\n' ∨ isPlain c then do
        let (s, rest) ← readLong? escapes quote n rest
        some (c :: s, rest)
      else none

/-! ## Keys -/

/-- The characters of a key without quotes. -/
def isBareChar (c : Char) : Bool :=
  c.isAlphanum || c = '_' || c = '-'

def readKeyPart? (cs : List Char) : Option (String × List Char) :=
  match cs with
  | '"' :: rest => (readBasic? (rest.length + 1) rest).map fun (s, rest) => (String.ofList s, rest)
  | '\x27' :: rest => (readRaw? rest).map fun (s, rest) => (String.ofList s, rest)
  | cs =>
    match cs.takeWhile isBareChar with
    | [] => none
    | c :: word => some (String.ofList (c :: word), cs.dropWhile isBareChar)

/-- A key: parts with dots between them, and blanks around each. -/
def readKey? : Nat → List Char → Option (List String × List Char)
  | 0, _ => none
  | n + 1, cs => do
    let (part, rest) ← readKeyPart? (skipSpaces cs)
    match skipSpaces rest with
    | '.' :: rest => do
      let (parts, rest) ← readKey? n rest
      some (part :: parts, rest)
    | rest => some ([part], rest)

/-- How many parts a key may have, and how deep arrays and inline tables may nest. -/
def depthLimit : Nat := 79

/-- A key as a path and the last part. -/
def readPath? (cs : List Char) : Option ((List String × String) × List Char) := do
  let (parts, rest) ← readKey? (cs.length + 1) cs
  if parts.length ≤ depthLimit then
    match parts.getLast? with
    | some key => some ((parts.dropLast, key), rest)
    | none => none
  else none

/-! ## Values -/

mutual

/-- A value, with that many levels of arrays and inline tables left. -/
def readValue? : Nat → Nat → List Char → Option (Toml × List Char)
  | 0, _, _ => none
  | n + 1, levels, cs =>
    match cs with
    | '"' :: '"' :: '"' :: rest =>
      (readLong? true '"' (rest.length + 1) (skipBreak rest)).map fun (s, rest) =>
        (.str (String.ofList s), rest)
    | '\x27' :: '\x27' :: '\x27' :: rest =>
      (readLong? false '\x27' (rest.length + 1) (skipBreak rest)).map fun (s, rest) =>
        (.str (String.ofList s), rest)
    | '"' :: rest =>
      (readBasic? (rest.length + 1) rest).map fun (s, rest) => (.str (String.ofList s), rest)
    | '\x27' :: rest => (readRaw? rest).map fun (s, rest) => (.str (String.ofList s), rest)
    | '[' :: rest =>
      match levels with
      | 0 => none
      | levels + 1 => (readItems? n levels rest).map fun (vs, rest) => (.array vs, rest)
    | '\x7b' :: rest =>
      match levels with
      | 0 => none
      | levels + 1 =>
        match skipSpaces rest with
        | '\x7d' :: rest => some (.table .inline [], rest)
        | rest => (readPairs? n levels [] rest).map fun (fs, rest) => (.table .inline fs, rest)
    | cs => readWord? cs

/-- The items of an array up to its closing bracket. A comma may follow the last one. -/
def readItems? : Nat → Nat → List Char → Option (List Toml × List Char)
  | 0, _, _ => none
  | n + 1, levels, cs =>
    match skipFiller (cs.length + 1) cs with
    | ']' :: rest => some ([], rest)
    | cs => do
      let (v, rest) ← readValue? n levels cs
      match skipFiller (rest.length + 1) rest with
      | ',' :: rest => do
        let (vs, rest) ← readItems? n levels rest
        some (v :: vs, rest)
      | ']' :: rest => some ([v], rest)
      | _ => none

/-- The pairs of an inline table up to its closing brace, added to the fields so far. No comma
follows the last one. -/
def readPairs? : Nat → Nat → Fields → List Char → Option (Fields × List Char)
  | 0, _, _, _ => none
  | n + 1, levels, fields, cs => do
    let ((path, key), rest) ← readPath? cs
    match rest with
    | '=' :: rest => do
      let (v, rest) ← readValue? n levels (skipSpaces rest)
      let fields ← assign key v path fields
      match skipSpaces rest with
      | ',' :: rest => readPairs? n levels fields rest
      | '\x7d' :: rest => some (fields, rest)
      | _ => none
    | _ => none

end

/-! ## Documents -/

inductive Statement where
  /-- A key and its value. -/
  | pair (path : List String) (key : String) (value : Toml)
  /-- The header of a table. -/
  | header (path : List String) (key : String)
  /-- The header of the next table of an array. -/
  | nextHeader (path : List String) (key : String)

def readStatements? : Nat → List Char → Option (List Statement)
  | 0, _ => none
  | n + 1, cs =>
    match skipSpaces cs with
    | [] => some []
    | '\n' :: rest => readStatements? n rest
    | '\r' :: '\n' :: rest => readStatements? n rest
    | '#' :: rest => do
      let rest ← finishLine? ('#' :: rest)
      readStatements? n rest
    | '[' :: '[' :: rest => do
      let ((path, key), rest) ← readPath? rest
      match rest with
      | ']' :: ']' :: rest => do
        let rest ← finishLine? rest
        let statements ← readStatements? n rest
        some (.nextHeader path key :: statements)
      | _ => none
    | '[' :: rest => do
      let ((path, key), rest) ← readPath? rest
      match rest with
      | ']' :: rest => do
        let rest ← finishLine? rest
        let statements ← readStatements? n rest
        some (.header path key :: statements)
      | _ => none
    | cs => do
      let ((path, key), rest) ← readPath? cs
      match rest with
      | '=' :: rest => do
        let rest := skipSpaces rest
        let (v, rest) ← readValue? (rest.length + 1) depthLimit rest
        let rest ← finishLine? rest
        let statements ← readStatements? n rest
        some (.pair path key v :: statements)
      | _ => none

/-- Builds a document; `current` is the path of the table that was opened last. -/
def build? (current : List String) (fields : Fields) : List Statement → Option Fields
  | [] => some fields
  | .pair path key value :: statements => do
    let fields ← descend (assign key value path) current fields
    build? current fields statements
  | .header path key :: statements => do
    let fields ← descend (openTable key) path fields
    build? (path ++ [key]) fields statements
  | .nextHeader path key :: statements => do
    let fields ← descend (openNext key) path fields
    build? (path ++ [key]) fields statements

/-- The text without a byte order mark in front. -/
def skipMark : List Char → List Char
  | '\ufeff' :: cs => cs
  | cs => cs

/-- The table that a whole list of characters spells. -/
def readChars? (cs : List Char) : Option Fields := do
  let statements ← readStatements? (cs.length + 1) cs
  build? [] [] statements

/-- **The table of a TOML document**, if the text is one. -/
def read? (text : String) : Option Fields :=
  readChars? (skipMark text.toList)

end L32.Toml
