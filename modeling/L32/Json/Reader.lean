import L32.Json.Value

set_option autoImplicit false

/-! # Reading JSON

`Json.read?` takes exactly the texts of one JSON value, with blanks around any part of it: no
comments, no comma after the last item, no zero in front of a number, no character below the blank
inside a string. There is no bound on nesting here, nor on the size of numbers: both belong to
what a value is read for.

Each function takes a text apart from the front and gives what it has read together with the
rest. -/

namespace L32.Json

/-- The text without the blanks in front: space, tab, line feed and carriage return. -/
def skipBlanks : List Char → List Char
  | [] => []
  | c :: cs => if c = ' ' ∨ c = '\t' ∨ c = '\n' ∨ c = '\r' then skipBlanks cs else c :: cs

/-- What follows a word, if the text starts with it. -/
def afterWord? : List Char → List Char → Option (List Char)
  | [], cs => some cs
  | _ :: _, [] => none
  | w :: ws, c :: cs => if w = c then afterWord? ws cs else none

/-! ## Numbers -/

def takeDigits : List Char → List Digit × List Char
  | [] => ([], [])
  | c :: cs =>
    match Digit.ofChar? c with
    | some d => let (ds, rest) := takeDigits cs; (d :: ds, rest)
    | none => ([], c :: cs)

/-- The digits in front, at least one. -/
def readDigits? (cs : List Char) : Option (List Digit × List Char) :=
  match takeDigits cs with
  | ([], _) => none
  | (d :: ds, rest) => some (d :: ds, rest)

/-- The part of a number before the point: digits that do not start with a zero, unless it is the
only one. -/
def readWhole? (cs : List Char) : Option (Nat × List Char) := do
  let (ds, rest) ← readDigits? cs
  match ds with
  | 0 :: _ :: _ => none
  | ds => some (ofDigits ds, rest)

/-- The part of a number after the point, if there is a point. -/
def readFraction? (cs : List Char) : Option (List Digit × List Char) :=
  match afterWord? ['.'] cs with
  | some rest => readDigits? rest
  | none => some ([], cs)

/-- A sign in front, and the rest: whether it is a minus. -/
def takeSign (cs : List Char) : Bool × List Char :=
  match afterWord? ['-'] cs with
  | some rest => (true, rest)
  | none =>
    match afterWord? ['+'] cs with
    | some rest => (false, rest)
    | none => (false, cs)

/-- The exponent of a number, zero if there is none. -/
def readExponent? (cs : List Char) : Option (Int × List Char) :=
  match (afterWord? ['e'] cs).or (afterWord? ['E'] cs) with
  | none => some (0, cs)
  | some rest => do
    let (negative, rest) := takeSign rest
    let (ds, rest) ← readDigits? rest
    some (if negative then -(ofDigits ds : Int) else ofDigits ds, rest)

def readUnsigned? (negative : Bool) (cs : List Char) : Option (Numeral × List Char) := do
  let (whole, cs) ← readWhole? cs
  let (fraction, cs) ← readFraction? cs
  let (exponent, cs) ← readExponent? cs
  some (⟨negative, whole, fraction, exponent⟩, cs)

def readNumeral? (cs : List Char) : Option (Numeral × List Char) :=
  match afterWord? ['-'] cs with
  | some rest => readUnsigned? true rest
  | none => readUnsigned? false cs

/-! ## Strings

A string is read in two steps: into pieces, each a character or the code of an escape, and then
into characters, where two codes may make up one. -/

inductive Piece where
  | char (c : Char)
  | code (n : Nat)
  deriving DecidableEq, Repr

/-- The characters that a backslash and one letter stand for. -/
def shortEscape? : Char → Option Char
  | '"' => some '"'
  | '\\' => some '\\'
  | '/' => some '/'
  | 'b' => some '\x08'
  | 'f' => some '\x0c'
  | 'n' => some '\n'
  | 'r' => some '\r'
  | 't' => some '\t'
  | _ => none

/-- The code that four hexadecimal digits spell. -/
def hexCode? (a b c d : Char) : Option Nat := do
  let a ← hexValue? a
  let b ← hexValue? b
  let c ← hexValue? c
  let d ← hexValue? d
  some (((a * 16 + b) * 16 + c) * 16 + d)

/-- The pieces up to the closing quote. -/
def readPieces? : List Char → Option (List Piece × List Char)
  | [] => none
  | c :: cs =>
    if c = '"' then some ([], cs)
    else if c = '\\' then
      match cs with
      | [] => none
      | e :: cs =>
        if e = 'u' then
          match cs with
          | h₁ :: h₂ :: h₃ :: h₄ :: cs => do
            let n ← hexCode? h₁ h₂ h₃ h₄
            let (ps, rest) ← readPieces? cs
            some (.code n :: ps, rest)
          | _ => none
        else do
          let c ← shortEscape? e
          let (ps, rest) ← readPieces? cs
          some (.char c :: ps, rest)
    else if c.toNat < 32 then none
    else do
      let (ps, rest) ← readPieces? cs
      some (.char c :: ps, rest)

/-- Whether a code is the first half of a surrogate pair. -/
def isHighHalf (n : Nat) : Bool :=
  0xD800 ≤ n && n < 0xDC00

/-- Whether a code is the second half of a surrogate pair. -/
def isLowHalf (n : Nat) : Bool :=
  0xDC00 ≤ n && n < 0xE000

/-- The character of a surrogate pair. -/
def ofHalves (high low : Nat) : Char :=
  Char.ofNat (0x10000 + (high - 0xD800) * 0x400 + (low - 0xDC00))

/-- The characters that the pieces spell; none if half of a surrogate pair stands alone. -/
def spell? : List Piece → Option (List Char)
  | [] => some []
  | .char c :: ps => (spell? ps).map (c :: ·)
  | .code n :: ps =>
    if isHighHalf n then
      match ps with
      | .code m :: ps => if isLowHalf m then (spell? ps).map (ofHalves n m :: ·) else none
      | _ => none
    else if isLowHalf n then none
    else (spell? ps).map (Char.ofNat n :: ·)

def readString? (cs : List Char) : Option (Option String × List Char) := do
  let (ps, rest) ← readPieces? cs
  some ((spell? ps).map String.ofList, rest)

/-! ## Values

The first argument bounds the number of steps; twice the length of a text is always enough. -/

/-- A value without parts and without quotes: null, a truth value or a number. -/
def readPlain? (cs : List Char) : Option (Json × List Char) :=
  match afterWord? ['n', 'u', 'l', 'l'] cs with
  | some rest => some (.null, rest)
  | none =>
    match afterWord? ['t', 'r', 'u', 'e'] cs with
    | some rest => some (.bool true, rest)
    | none =>
      match afterWord? ['f', 'a', 'l', 's', 'e'] cs with
      | some rest => some (.bool false, rest)
      | none => do
        let (x, rest) ← readNumeral? cs
        some (.number x, rest)

/-- What follows a character, if it is the next one after blanks. -/
def after? (c : Char) (cs : List Char) : Option (List Char) :=
  match skipBlanks cs with
  | [] => none
  | d :: rest => if d = c then some rest else none

mutual

def readValue? : Nat → List Char → Option (Json × List Char)
  | 0, _ => none
  | n + 1, cs =>
    match skipBlanks cs with
    | [] => none
    | c :: rest =>
      if c = '"' then do
        let (s, rest) ← readString? rest
        some (.str s, rest)
      else if c = '[' then
        match after? ']' rest with
        | some rest => some (.array [], rest)
        | none => do
          let (vs, rest) ← readItems? n rest
          some (.array vs, rest)
      else if c = '\x7b' then
        match after? '\x7d' rest with
        | some rest => some (.object [], rest)
        | none => do
          let (fs, rest) ← readFields? n rest
          some (.object fs, rest)
      else readPlain? (c :: rest)

/-- The items of an array, at least one, and its closing bracket. -/
def readItems? : Nat → List Char → Option (List Json × List Char)
  | 0, _ => none
  | n + 1, cs => do
    let (v, rest) ← readValue? n cs
    match after? ',' rest with
    | some rest => do
      let (vs, rest) ← readItems? n rest
      some (v :: vs, rest)
    | none => do
      let rest ← after? ']' rest
      some ([v], rest)

/-- The fields of an object, at least one, and its closing brace. -/
def readFields? : Nat → List Char → Option (List (Option String × Json) × List Char)
  | 0, _ => none
  | n + 1, cs => do
    let rest ← after? '"' cs
    let (k, rest) ← readString? rest
    let rest ← after? ':' rest
    let (v, rest) ← readValue? n rest
    match after? ',' rest with
    | some rest => do
      let (fs, rest) ← readFields? n rest
      some ((k, v) :: fs, rest)
    | none => do
      let rest ← after? '\x7d' rest
      some ([(k, v)], rest)

end

/-- The value that a whole list of characters spells. -/
def readChars? (cs : List Char) : Option Json :=
  match readValue? (2 * cs.length + 1) cs with
  | some (v, rest) => if skipBlanks rest = [] then some v else none
  | none => none

/-- **The value of a JSON text**, if it is one. -/
def read? (text : String) : Option Json :=
  readChars? text.toList

end L32.Json
