import L32.Number.Decimal
import L32.Number.Nearest
import L32.Text.Escape
import L32.Toml.Value

set_option autoImplicit false

/-! # Numbers, truth values and dates in TOML

These values are single words: `Toml.ofWord?` reads a whole word. An integer has 64 bits, digits
may be grouped by single underscores, and a date has to exist in the calendar. -/

namespace L32.Toml

/-! ## Digits -/

/-- The value of a digit in a base up to sixteen. -/
def digitIn? (base : Nat) (c : Char) : Option Nat :=
  (hexValue? c).bind fun n => if n < base then some n else none

/-- Digits after a first one, each with at most one underscore before it, added to a number. -/
def moreDigits? (base : Nat) (n : Nat) : List Char → Option Nat
  | [] => some n
  | '_' :: c :: cs => do
    let d ← digitIn? base c
    moreDigits? base (n * base + d) cs
  | c :: cs => do
    let d ← digitIn? base c
    moreDigits? base (n * base + d) cs

/-- A number in a base, which may start with zeros. -/
def digits? (base : Nat) : List Char → Option Nat
  | [] => none
  | c :: cs => do
    let d ← digitIn? base c
    moreDigits? base d cs

/-- A decimal number that does not start with a zero, unless it is one. -/
def decimal? : List Char → Option Nat
  | ['0'] => some 0
  | '0' :: _ => none
  | cs => digits? 10 cs

/-- A sign in front, and the rest. -/
def sign : List Char → Bool × List Char
  | '-' :: cs => (true, cs)
  | '+' :: cs => (false, cs)
  | cs => (false, cs)

/-! ## Numbers -/

/-- An integer of 64 bits. -/
def within64? (n : Int) : Option Toml :=
  if -9223372036854775808 ≤ n ∧ n ≤ 9223372036854775807 then some (.integer n) else none

/-- An integer: decimal with a sign or without, or in another base after its mark. -/
def integer? : List Char → Option Toml
  | '0' :: 'x' :: cs => do within64? (← digits? 16 cs)
  | '0' :: 'o' :: cs => do within64? (← digits? 8 cs)
  | '0' :: 'b' :: cs => do within64? (← digits? 2 cs)
  | cs => do
    let (negative, cs) := sign cs
    let n ← decimal? cs
    within64? (if negative then -(n : Int) else n)

/-- The part of a word before a character that satisfies the test and the part after it, if there
is such a character. -/
def cut? (test : Char → Bool) : List Char → Option (List Char × List Char)
  | [] => none
  | c :: cs =>
    if test c then some ([], cs) else (cut? test cs).map fun (front, back) => (c :: front, back)

def exponent? (cs : List Char) : Option Int := do
  let (negative, cs) := sign cs
  let n ← digits? 10 cs
  some (if negative then -(n : Int) else n)

/-- A finite number with a fraction, an exponent or both. One that is too large is refused, one
that is too low is minus infinity. -/
def finite? (cs : List Char) : Option Toml := do
  let (negative, cs) := sign cs
  let (front, exponent) ← match cut? (fun c => c = 'e' || c = 'E') cs with
    | some (front, back) => (exponent? back).map fun x => (front, some x)
    | none => some (cs, none)
  let (whole, fraction) ← match cut? (· = '.') front with
    | some (whole, fraction) => (digits? 10 fraction).map fun n =>
      (whole, some (n, (fraction.filter (· ≠ '_')).length))
    | none => some (front, none)
  let m ← decimal? whole
  match fraction, exponent with
  | none, none => none
  | _, _ =>
    let (n, places) := fraction.getD (0, 0)
    let scaled := m * powNum 10 places + n
    match nearestDouble? negative scaled (exponent.getD 0 - places), negative with
    | some x, _ => some (.float x)
    | none, true => some (.float (-1.0 / 0.0))
    | none, false => none

/-- An infinity, or what is not a number. -/
def special? (cs : List Char) : Option Toml :=
  let (negative, cs) := sign cs
  if cs = ['i', 'n', 'f'] then some (.float (if negative then -1.0 / 0.0 else 1.0 / 0.0))
  else if cs = ['n', 'a', 'n'] then some (.float (0.0 / 0.0))
  else none

/-! ## Dates and times -/

/-- A number of two digits within bounds. -/
def twoDigits? (low high : Nat) (a b : Char) : Option Nat := do
  let a ← digitIn? 10 a
  let b ← digitIn? 10 b
  let n := 10 * a + b
  if low ≤ n ∧ n ≤ high then some n else none

def daysIn (year month : Nat) : Nat :=
  if month = 2 then
    if year % 4 = 0 ∧ (year % 100 ≠ 0 ∨ year % 400 = 0) then 29 else 28
  else if month = 4 ∨ month = 6 ∨ month = 9 ∨ month = 11 then 30
  else 31

def takeDay? : List Char → Option (List Char)
  | y₁ :: y₂ :: y₃ :: y₄ :: '-' :: m₁ :: m₂ :: '-' :: d₁ :: d₂ :: rest => do
    let century ← twoDigits? 0 99 y₁ y₂
    let year ← twoDigits? 0 99 y₃ y₄
    let month ← twoDigits? 1 12 m₁ m₂
    let _ ← twoDigits? 1 (daysIn (100 * century + year) month) d₁ d₂
    some rest
  | _ => none

/-- A fraction of a second in front, if there is one, and the rest. -/
def takeFraction? : List Char → Option (List Char)
  | '.' :: c :: cs => if (digitIn? 10 c).isSome then some (cs.dropWhile Char.isDigit) else none
  | '.' :: [] => none
  | cs => some cs

/-- A time of the day in front, and the rest. The sixtieth second is a leap second. -/
def takeTime? : List Char → Option (List Char)
  | h₁ :: h₂ :: ':' :: m₁ :: m₂ :: ':' :: s₁ :: s₂ :: rest => do
    let _ ← twoDigits? 0 23 h₁ h₂
    let _ ← twoDigits? 0 59 m₁ m₂
    let _ ← twoDigits? 0 60 s₁ s₂
    takeFraction? rest
  | _ => none

def isOffset : List Char → Bool
  | ['Z'] => true
  | ['z'] => true
  | [s, h₁, h₂, ':', m₁, m₂] =>
    (s = '+' || s = '-') && (twoDigits? 0 23 h₁ h₂).isSome && (twoDigits? 0 59 m₁ m₂).isSome
  | _ => false

def isTimeWithOffset (cs : List Char) : Bool :=
  match takeTime? cs with
  | some rest => rest.isEmpty || isOffset rest
  | none => false

def isDay (cs : List Char) : Bool :=
  takeDay? cs = some []

/-- A day, a time, or both with a `T` between them. -/
def date? (cs : List Char) : Option Toml :=
  let fits := match takeDay? cs with
    | some [] => true
    | some ('T' :: rest) => isTimeWithOffset rest
    | some ('t' :: rest) => isTimeWithOffset rest
    | some _ => false
    | none => takeTime? cs = some []
  if fits then some (.date (String.ofList cs)) else none

/-! ## Words -/

def isWordChar (c : Char) : Bool :=
  c.isAlphanum || c = '_' || c = '+' || c = '-' || c = '.' || c = ':'

def ofWord? (cs : List Char) : Option Toml :=
  if cs = ['t', 'r', 'u', 'e'] then some (.bool true)
  else if cs = ['f', 'a', 'l', 's', 'e'] then some (.bool false)
  else (date? cs).or ((special? cs).or ((integer? cs).or (finite? cs)))

/-- A word in front, and the rest. A day and a time may be two words with a blank between them. -/
def readWord? (cs : List Char) : Option (Toml × List Char) :=
  let word := cs.takeWhile isWordChar
  let rest := cs.dropWhile isWordChar
  match isDay word, rest with
  | true, ' ' :: rest' =>
    let time := rest'.takeWhile isWordChar
    if isTimeWithOffset time then
      some (.date (String.ofList (word ++ ' ' :: time)), rest'.dropWhile isWordChar)
    else (ofWord? word).map (·, rest)
  | _, _ => (ofWord? word).map (·, rest)

end L32.Toml
