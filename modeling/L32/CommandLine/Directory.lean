import L32.CommandLine.Execute

set_option autoImplicit false

/-! # A working directory in memory

A system of files without links, seen from a working directory: names and contents of files. A name
is the path of a file with nothing superfluous in it. It starts at the root, or at the working
directory or a directory above that, and then leads down. Where the working directory itself stands
is not told, so the names that start at the root are names of other files.

A path is followed from directory to directory (`Directory.enter?`). Empty parts and `.` stay in the
directory, `..` leads to the one above, and every other part has to be a directory in which there is
some file. -/

namespace L32

/-- Names and contents of files. -/
structure Directory where
  files : List (String × String)
  deriving DecidableEq, Repr

namespace Directory

/-- The parts of a path between its slashes. -/
def splitPath : List Char → List (List Char)
  | [] => [[]]
  | c :: cs =>
    match splitPath cs with
    | part :: parts => if c = '/' then [] :: part :: parts else (c :: part) :: parts
    | [] => [[c]]

/-- Where one stands: below the root or not, and the names that lead there, the last one first. -/
structure Place where
  fromRoot : Bool
  names : List (List Char)

namespace Place

def name (place : Place) : String :=
  (if place.fromRoot then "/" else "") ++ joinWith "/" (place.names.reverse.map String.ofList)

def down (part : List Char) (place : Place) : Place :=
  { place with names := part :: place.names }

/-- The directory above. There is none above the root. -/
def up (place : Place) : Place :=
  match place.names with
  | [] => if place.fromRoot then place else place.down ['.', '.']
  | part :: parts =>
    if part = ['.', '.'] then place.down ['.', '.'] else { place with names := parts }

end Place

/-- The length in bytes that a part of a path may have. -/
def nameLimit : Nat := 255

/-- Whether a part of a path names a file or a directory, and not a place relative to another. -/
def isProperPart (part : List Char) : Bool :=
  part ≠ [] && part ≠ ['.'] && part ≠ ['.', '.'] && (String.ofList part).utf8ByteSize ≤ nameLimit

def hasDirectory (d : Directory) (name : String) : Bool :=
  d.files.any fun f => (name ++ "/").toList.isPrefixOf f.1.toList

def enter? (d : Directory) (place : Place) (part : List Char) : Option Place :=
  if part = [] ∨ part = ['.'] then some place
  else if part = ['.', '.'] then some place.up
  else if isProperPart part ∧ d.hasDirectory (place.down part).name then some (place.down part)
  else none

/-- The name of the file that a path leads to, whether there is such a file or not. -/
def resolve? (d : Directory) (path : String) : Option String := do
  let parts := splitPath path.toList
  let place ← parts.dropLast.foldlM d.enter? ⟨path.toList.head? = some '/', []⟩
  let part ← parts.getLast?
  if isProperPart part then some (place.down part).name else none

def read? (d : Directory) (path : String) : Option String := do
  let name ← d.resolve? path
  (d.files.find? fun f => f.1 = name).map Prod.snd

/-- The files after one was written. -/
def save (d : Directory) (name text : String) : Directory :=
  ⟨(d.files.filter fun f => f.1 ≠ name) ++ [(name, text)]⟩

/-- Writes a file, unless the path leads nowhere or to a directory. -/
def write? (d : Directory) (path text : String) : Option Directory := do
  let name ← d.resolve? path
  if d.hasDirectory name then none else some (d.save name text)

/-- The files as a system with a text on its standard input. -/
def system (stdin : String) : System Directory where
  stdin := .ok stdin
  read d path := (d.read? path).elim (.error "the file cannot be read") .ok
  write d path text := (d.write? path text).elim (.error "the file cannot be written") .ok

/-- **Executes a command line in a directory.** -/
def invoke (d : Directory) (args : List String) (stdin : String) : Run Directory Unit :=
  (system stdin).invoke plainWording args d

/-- The files that are new or have another content than before. -/
def changes (before later : Directory) : List (String × String) :=
  later.files.filter fun f => !before.files.contains f

end Directory

def Run.directory {α : Type} (run : Run Directory α) : Directory := run.state

end L32
